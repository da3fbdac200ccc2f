import Groundplan.Proofs.Engine.Defects
import Groundplan.Proofs.Engine.Tracking

/-!
# The Life of a Node

A node that nothing is known of is unvisited.  Its evaluation is counted when it begins, and from
then on the node is in progress, until it is settled by a value or by a failure.  Whatever else a
pass changes, it changes beside that: expansions, arguments, deferred templates, reports.  So a pass
is a course of such moves, in which no node begins twice, none is settled that has not begun, and
none moves once it is settled.

A node begins while others are in progress, and it must not be one of them.  They all wait for it,
directly or through others, and without cycles no node waits for itself.

## Main Definitions

- `Engine.State.phase`: how far a node has come
- `Engine.Move`, `Engine.Course`: what passes do to states
- `Engine.Proceeds`: a course after which no other nodes are in progress than before
- `Engine.beginning`: the state from which a call resolves nodes

## Main Statements

- `Engine.Move.phase`, `Engine.Course.phase`: nodes only move on
- `Engine.proceeds_tracks`: a resolution is a course
- `Engine.evaluated_once`
-/

namespace Groundplan

namespace Engine

variable {engine : Engine} {overlay : Overlay} {Admitted : NodeId → Prop} {s s' s'' : State}
  {node : NodeId}

/-! ## Phases -/

/-- How far a node has come in a pass that may still be going on. -/
inductive Phase where
  | unvisited
  | inProgress
  | resolved
  | failed
  | skipped
deriving DecidableEq, Repr

/-- The phases of a node follow each other: it begins, and it is settled. -/
inductive Phase.Next : Phase → Phase → Prop where
  | begins : Next .unvisited .inProgress
  | resolves : Next .inProgress .resolved
  | fails : Next .inProgress .failed
  | skips : Next .inProgress .skipped

namespace State

/-- How often a node has been evaluated in a pass. -/
def evaluationCount (s : State) (node : NodeId) : Nat :=
  (Table.get? s.evaluations node).getD 0

/-- How far a node has come.  Once its evaluation has begun, it is in progress until it is
settled. -/
def phase (s : State) (node : NodeId) : Phase :=
  match s.status node with
  | .unvisited => if s.evaluationCount node = 0 then .unvisited else .inProgress
  | .resolved => .resolved
  | .failed => .failed
  | .skipped => .skipped

theorem status_eq_unvisited_iff : s.status node = .unvisited ↔ ¬ s.IsSettled node := by
  unfold status IsSettled
  rcases Table.get? s.settled node with _ | v | f
  · simp
  · simp
  · by_cases hskipped : f.isSkipped = true <;> simp [hskipped]

theorem phase_eq_unvisited_iff :
    s.phase node = .unvisited ↔ ¬ s.IsSettled node ∧ s.evaluationCount node = 0 := by
  rw [← status_eq_unvisited_iff]
  unfold phase
  cases s.status node <;> simp

theorem phase_eq_inProgress_iff :
    s.phase node = .inProgress ↔ ¬ s.IsSettled node ∧ s.evaluationCount node ≠ 0 := by
  rw [← status_eq_unvisited_iff]
  unfold phase
  cases s.status node <;> simp

theorem phase_congr (hsettled : Table.get? s'.settled node = Table.get? s.settled node)
    (hcount : s'.evaluationCount node = s.evaluationCount node) :
    s'.phase node = s.phase node := by
  unfold phase status
  rw [hsettled, hcount]

theorem evaluationCount_count (s : State) (node m : NodeId) :
    (s.count node).evaluationCount m
      = if node = m then s.evaluationCount node + 1 else s.evaluationCount m := by
  unfold evaluationCount count
  dsimp only
  rw [Table.get?_put]
  split <;> rfl

end State

/-! ## Moves -/

/-- What a pass does to a state at once: a node begins, a node is settled, or nothing happens to any
node. -/
inductive Move : State → State → Prop where
  | begin {s : State} {node : NodeId} (unvisited : s.phase node = .unvisited) :
      Move s (s.count node)
  | settle {s : State} {node : NodeId} (outcome : Settled)
      (inProgress : s.phase node = .inProgress) : Move s (s.settle node outcome)
  | aside {s s' : State} (settled : s'.settled = s.settled)
      (evaluations : s'.evaluations = s.evaluations) : Move s s'

/-- Moves one after another. -/
abbrev Course : State → State → Prop :=
  Relation.ReflTransGen Move

namespace Move

/-- A node stays in its phase or moves to the next one. -/
theorem phase (h : Move s s') (node : NodeId) :
    s'.phase node = s.phase node ∨ Phase.Next (s.phase node) (s'.phase node) := by
  cases h with
  | @begin m hunvisited =>
    by_cases hnode : m = node
    · subst hnode
      have hbegun : (s.count m).phase m = .inProgress := by
        rw [State.phase_eq_inProgress_iff, State.evaluationCount_count, if_pos rfl]
        exact ⟨(State.phase_eq_unvisited_iff.mp hunvisited).1, Nat.succ_ne_zero _⟩
      rw [hunvisited, hbegun]
      exact .inr .begins
    · refine .inl (State.phase_congr rfl ?_)
      rw [State.evaluationCount_count, if_neg hnode]
  | @settle m outcome hinProgress =>
    by_cases hnode : m = node
    · subst hnode
      rw [hinProgress]
      right
      unfold State.phase State.status State.settle
      dsimp only
      rw [Table.get?_put_self]
      cases outcome with
      | value v => exact .resolves
      | failure f =>
        dsimp only
        cases f.isSkipped
        · exact .fails
        · exact .skips
    · exact .inl (State.phase_congr (Table.get?_put_of_ne _ _ hnode) rfl)
  | aside hsettled hevaluations =>
    refine .inl (State.phase_congr (by rw [hsettled]) ?_)
    unfold State.evaluationCount
    rw [hevaluations]

/-- What has become of a node stays as it is. -/
theorem settled (h : Move s s') {outcome : Settled}
    (hnode : Table.get? s.settled node = some outcome) :
    Table.get? s'.settled node = some outcome := by
  cases h with
  | begin _ => exact hnode
  | @settle m outcome' hinProgress =>
    have hother : m ≠ node := by
      rintro rfl
      exact (State.phase_eq_inProgress_iff.mp hinProgress).1 (State.isSettled_of_get? hnode)
    exact (Table.get?_put_of_ne _ _ hother).trans hnode
  | aside hsettled _ => rwa [hsettled]

/-- Only a node that has not been evaluated is evaluated. -/
theorem evaluationCount_le_one (h : Move s s') (hs : ∀ m, s.evaluationCount m ≤ 1) (m : NodeId) :
    s'.evaluationCount m ≤ 1 := by
  cases h with
  | @begin node hunvisited =>
    rw [State.evaluationCount_count]
    split
    · rw [(State.phase_eq_unvisited_iff.mp hunvisited).2]
    · exact hs m
  | settle _ _ => exact hs m
  | aside _ hevaluations =>
    unfold State.evaluationCount
    rw [hevaluations]
    exact hs m

/-- What is settled is not evaluated again. -/
theorem evaluationCount_of_settled (h : Move s s') (hnode : s.IsSettled node) :
    s'.evaluationCount node = s.evaluationCount node := by
  cases h with
  | @begin m hunvisited =>
    rw [State.evaluationCount_count, if_neg]
    rintro rfl
    exact (State.phase_eq_unvisited_iff.mp hunvisited).1 hnode
  | settle _ _ => rfl
  | aside _ hevaluations =>
    unfold State.evaluationCount
    rw [hevaluations]

end Move

namespace Course

/-- A node only moves from one phase to the next. -/
theorem phase (h : Course s s') (node : NodeId) :
    Relation.ReflTransGen Phase.Next (s.phase node) (s'.phase node) := by
  induction h with
  | refl => exact .refl
  | tail _ hmove ih =>
    rcases hmove.phase node with hsame | hnext
    · rwa [hsame]
    · exact ih.tail hnext

theorem settled (h : Course s s') {outcome : Settled}
    (hnode : Table.get? s.settled node = some outcome) :
    Table.get? s'.settled node = some outcome := by
  induction h with
  | refl => exact hnode
  | tail _ hmove ih => exact hmove.settled ih

theorem evaluationCount_le_one (h : Course s s') (hs : ∀ m, s.evaluationCount m ≤ 1) :
    ∀ m, s'.evaluationCount m ≤ 1 := by
  induction h with
  | refl => exact hs
  | tail _ hmove ih => exact hmove.evaluationCount_le_one ih

/-- What is settled is not evaluated again. -/
theorem evaluationCount_of_settled (h : Course s s') (hnode : s.IsSettled node) :
    s'.evaluationCount node = s.evaluationCount node := by
  induction h with
  | refl => rfl
  | @tail t t' hcourse hmove ih =>
    obtain ⟨outcome, houtcome⟩ := Option.isSome_iff_exists.mp hnode
    have hkept : t.IsSettled node := State.isSettled_of_get? (Course.settled hcourse houtcome)
    exact (hmove.evaluationCount_of_settled hkept).trans ih

end Course

/-! ## Computations -/

/-- A course from one state to another, after which just those nodes are in progress that have been
before. -/
structure Proceeds (s s' : State) : Prop where
  course : Course s s'
  active : ∀ m, s'.phase m = .inProgress ↔ s.phase m = .inProgress

namespace Proceeds

theorem refl (s : State) : Proceeds s s :=
  ⟨.refl, fun _ => .rfl⟩

theorem trans (h : Proceeds s s') (h' : Proceeds s' s'') : Proceeds s s'' :=
  ⟨h.course.trans h'.course, fun m => (h'.active m).trans (h.active m)⟩

theorem aside (hsettled : s'.settled = s.settled) (hevaluations : s'.evaluations = s.evaluations) :
    Proceeds s s' := by
  refine ⟨.single (.aside hsettled hevaluations), fun m => ?_⟩
  have hsame : s'.phase m = s.phase m := by
    refine State.phase_congr (by rw [hsettled]) ?_
    unfold State.evaluationCount
    rw [hevaluations]
  rw [hsame]

/-- A computation that neither settles nor counts. -/
theorem of_preserves {α : Type} {p : Pass α}
    (h : Preserves (fun t => t.settled = s.settled ∧ t.evaluations = s.evaluations) p) :
    Proceeds s (runFrom s p).2 :=
  have hafter := h s ⟨rfl, rfl⟩
  .aside hafter.1 hafter.2

end Proceeds

/-- Every node in progress is resolved for the node, so that it waits for it. -/
def Waiting (engine : Engine) (s : State) (node : NodeId) : Prop :=
  ∀ m, s.phase m = .inProgress → Above engine.graph m node

theorem Waiting.mono (h : Waiting engine s node) (hproceeds : Proceeds s s') :
    Waiting engine s' node :=
  fun m hm => h m ((hproceeds.active m).mp hm)

/-! ## Resolutions -/

/-- A node that begins is in progress besides those that wait for it. -/
theorem phase_count_eq_inProgress_iff (hunsettled : ¬ s.IsSettled node) (m : NodeId) :
    (s.count node).phase m = .inProgress ↔ m = node ∨ s.phase m = .inProgress := by
  rw [State.phase_eq_inProgress_iff, State.phase_eq_inProgress_iff, State.evaluationCount_count]
  by_cases hnode : node = m
  · subst hnode
    simpa using show ¬ (s.count node).IsSettled node from hunsettled
  · rw [if_neg hnode]
    simp [State.IsSettled, State.count, Ne.symm hnode]

/-- A node that is settled is no longer in progress. -/
theorem phase_settle_eq_inProgress_iff {outcome : Settled} (m : NodeId) :
    (s.settle node outcome).phase m = .inProgress ↔ m ≠ node ∧ s.phase m = .inProgress := by
  rw [State.phase_eq_inProgress_iff, State.phase_eq_inProgress_iff]
  unfold State.IsSettled State.settle State.evaluationCount
  dsimp only
  rw [Table.get?_put]
  by_cases hnode : node = m
  · simp [hnode]
  · simp [hnode, Ne.symm hnode]

/-- A node that is not in progress begins, and unless it meets a defect it is settled. -/
theorem settling_proceeds {evaluate : Pass Value} (hunvisited : s.phase node = .unvisited)
    (hregular : IsRegular (runFrom s (settling node evaluate)).1)
    (h : Proceeds (s.count node) (runFrom (s.count node) evaluate).2) :
    Proceeds s (runFrom s (settling node evaluate)).2 := by
  have hunsettled := (State.phase_eq_unvisited_iff.mp hunvisited).1
  rw [runFrom_settling] at hregular ⊢
  generalize runFrom (s.count node) evaluate = evaluated at h hregular ⊢
  obtain ⟨result, s'⟩ := evaluated
  have hsettle : ∀ outcome, Proceeds s (s'.settle node outcome) := by
    intro outcome
    have hactive : ∀ m, s'.phase m = .inProgress ↔ m = node ∨ s.phase m = .inProgress := fun m =>
      (h.active m).trans (phase_count_eq_inProgress_iff hunsettled m)
    refine ⟨.tail (.head (.begin hunvisited) h.course) (.settle outcome ?_), fun m => ?_⟩
    · exact (hactive node).mpr (.inl rfl)
    · rw [phase_settle_eq_inProgress_iff, hactive]
      -- The node itself has not been in progress before.
      have hidle : s.phase m = .inProgress → m ≠ node := by
        rintro hm rfl
        rw [hunvisited] at hm
        cases hm
      tauto
  rcases result with (f | ⟨e | d⟩) | v
  · exact hsettle _
  · exact hsettle _
  · exact absurd rfl (hregular d)
  · exact hsettle _

/-- A node for which all others wait that are in progress is not in progress itself. -/
theorem Waiting.unvisited (hgraph : engine.graph.Acyclic) (h : Waiting engine s node)
    (hunsettled : Table.get? s.settled node = none) : s.phase node = .unvisited := by
  have hnode : ¬ s.IsSettled node := by
    rw [State.IsSettled, hunsettled]
    exact Bool.false_ne_true
  by_contra hbegun
  refine Above.irrefl hgraph node (h node (State.phase_eq_inProgress_iff.mpr ⟨hnode, ?_⟩))
  exact fun hcount => hbegun (State.phase_eq_unvisited_iff.mpr ⟨hnode, hcount⟩)

/-- **A resolution is a course.**  The nodes in progress all wait for the node, and so they do for
whatever it needs. -/
theorem proceeds_tracks (hgraph : engine.graph.Acyclic)
    (hregular : ∀ m, Admitted m → IsRegular (engine.verdict overlay m)) :
    Tracks engine overlay Admitted Proceeds (Waiting engine) where
  refl := .refl
  trans := .trans
  fit hproceeds hwaiting := hwaiting.mono hproceeds
  expand _ _ := .aside rfl rfl
  defer _ _ := .aside rfl rfl
  single _ _ _ _ :=
    .of_preserves (evaluateInstance_preserves (fun _ _ h => h) fun _ _ h => h)
  below := by
    intro s node m hwaiting hunsettled habove m' hm'
    have hnode : ¬ s.IsSettled node := by
      rw [State.IsSettled, hunsettled]
      exact Bool.false_ne_true
    rcases (phase_count_eq_inProgress_iff hnode m').mp hm' with rfl | hm'
    · exact habove
    · exact (hwaiting m' hm').trans habove
  settling := by
    intro s node fuel hadmitted hwaiting hunsettled hresolves hproceeds
    refine settling_proceeds (hwaiting.unvisited hgraph hunsettled) ?_ hproceeds
    obtain ⟨s', hrun, _⟩ := hresolves
    rw [hrun]
    exact hregular node hadmitted

/-! ## Passes -/

/-- How things stand in a pass between two resolutions: a course has led here from the beginning of
the pass, and no node is in progress. -/
structure Rests (engine : Engine) (overlay : Overlay) (start s : State) : Prop where
  orderly : Orderly engine overlay engine.Declared s
  course : Course start s
  idle : ∀ m, s.phase m ≠ .inProgress

namespace Rests

variable {start : State}

/-- A resolution that meets no defect is a course, whatever defects there are elsewhere: it only
resolves nodes that meet none. -/
theorem resolveNode (hgraph : engine.graph.Acyclic)
    (hregular : IsRegular (engine.verdict overlay node)) (hdeclared : engine.Declared node) :
    Preserves (Rests engine overlay start) (engine.resolveNode node) := by
  intro s hs
  have hsettled : ∀ m, s.IsSettled m →
      engine.Declared m ∧ IsRegular (engine.verdict overlay m) := by
    intro m hm
    obtain ⟨outcome, houtcome⟩ := Option.isSome_iff_exists.mp hm
    refine ⟨hs.orderly.sound.admitted m outcome houtcome, ?_⟩
    rw [← hs.orderly.sound.settled m outcome houtcome]
    exact isRegular_result outcome
  have hproceeds := (proceeds_tracks hgraph fun m hm => hm.2).resolveNode hgraph
    (regular_closed hgraph overlay) (hs.orderly.mono hsettled).sound ⟨hdeclared, hregular⟩
    fun m hm => absurd hm (hs.idle m)
  exact ⟨resolveNode_orderly hgraph (declared_closed hgraph overlay) hdeclared s hs.orderly,
    hs.course.trans hproceeds.course, fun m hm => hs.idle m ((hproceeds.active m).mp hm)⟩

theorem report (h : Rests engine overlay start s) (nodes : List NodeId) :
    Rests engine overlay start (s.report nodes) := by
  have haside : Proceeds s (s.report nodes) := .aside rfl rfl
  exact ⟨h.orderly.report nodes, h.course.trans haside.course,
    fun m hm => h.idle m ((haside.active m).mp hm)⟩

end Rests

/-! ## Calls -/

/-- The state from which a call resolves nodes.  Attributes that are accepted begin a new pass. -/
def beginning (engine : Engine) (s : State) : Call → State
  | .resolve _ => s
  | .run => s
  | .apply node attributes =>
    match engine.checkApplicable node, readAttributes attributes, s.value? node with
    | .ok _, .ok supplied, some value => engine.merged s node value supplied
    | _, _, _ => s

/-- Attributes are refused, or a new pass begins where nothing has been evaluated. -/
theorem beginning_apply_cases (engine : Engine) (s : State) (node : NodeId)
    (attributes : Table String Plain) :
    (engine.beginning s (.apply node attributes) = s
        ∧ engine.after s (.apply node attributes) = s)
      ∨ ∃ supplied value, engine.checkApplicable node = .ok () ∧ s.value? node = some value
          ∧ engine.beginning s (.apply node attributes) = engine.merged s node value supplied
          ∧ engine.after s (.apply node attributes)
            = (runFrom (engine.merged s node value supplied)
                (engine.resumption node.address)).2 := by
  unfold after apply beginning
  dsimp only
  rw [runFrom_ofOutcome_bind]
  cases engine.checkApplicable node with
  | error fault => exact .inl ⟨rfl, rfl⟩
  | ok _ =>
    dsimp only
    rw [runFrom_ofOutcome_bind]
    cases readAttributes attributes with
    | error fault => exact .inl ⟨rfl, rfl⟩
    | ok supplied =>
      dsimp only
      rw [runFrom_get_bind]
      cases hvalue : s.value? node with
      | none => exact .inl ⟨rfl, rfl⟩
      | some value => exact .inr ⟨supplied, value, rfl, rfl, rfl, rfl⟩

/-- Resolutions change nothing of what has been supplied. -/
theorem applied_stable (overlay : Overlay) : Stable fun t => t.applied = overlay :=
  ⟨fun _ _ h => h, fun _ _ _ h => h, fun _ _ h => h, fun _ _ h => h, fun _ _ h => h⟩

/-- Only attributes from outside change what has been supplied. -/
theorem applied_after (engine : Engine) (s : State) (c : Call) :
    (engine.after s c).applied = (engine.beginning s c).applied := by
  have hresolve : ∀ overlay m, Preserves (fun t => t.applied = overlay) (engine.resolveNode m) :=
    fun overlay m => resolveWithin_preserves (applied_stable overlay) _ m
  cases c with
  | resolve node => exact resolve_preserves (fun _ => hresolve _ node) s rfl
  | run => exact run_preserves (fun a _ => hresolve _ (.ofAddress a)) (fun _ _ h => h) s rfl
  | apply node attributes =>
    rcases beginning_apply_cases engine s node attributes with
      ⟨hbeginning, hafter⟩ | ⟨supplied, value, _, _, hbeginning, hafter⟩
    · rw [hbeginning, hafter]
    · rw [hbeginning, hafter]
      exact resumption_preserves (fun a _ => hresolve _ (.ofAddress a)) (fun _ _ h => h)
        node.address _ rfl

/-- Between two calls no node is in progress, and none has been evaluated twice. -/
structure Settles (engine : Engine) (s : State) : Prop where
  kept : Kept engine s
  idle : ∀ m, s.phase m ≠ .inProgress
  once : ∀ m, s.evaluationCount m ≤ 1

theorem initial_settles (engine : Engine) : Settles engine .initial :=
  ⟨⟨fun _ => List.nodup_nil, initial_orderly engine _⟩, fun _ => nofun, fun _ => Nat.zero_le 1⟩

/-- The state from which a call resolves nodes is one that calls could have left. -/
theorem beginning_kept (hgraph : engine.graph.Acyclic) (hs : Kept engine s) (c : Call) :
    Kept engine (engine.beginning s c) := by
  cases c with
  | resolve node => exact hs
  | run => exact hs
  | apply node attributes =>
    rcases beginning_apply_cases engine s node attributes with
      ⟨hbeginning, _⟩ | ⟨supplied, value, hcheck, hvalue, hbeginning, _⟩
    · rw [hbeginning]
      exact hs
    · rw [hbeginning]
      have horderly : Orderly engine (supply s.applied node supplied) engine.Declared
          (engine.merged s node value supplied) :=
        merged_orderly hgraph hs.orderly hs.distinct hcheck hvalue fun _ hm _ => hm
      refine ⟨?_, ?_⟩
      · rw [horderly.sound.applied]
        exact hs.distinct.supply node supplied
      · rw [horderly.sound.applied]
        exact horderly

/-- A call begins where no node is in progress, and none has been evaluated twice. -/
theorem beginning_settles (hgraph : engine.graph.Acyclic) (hs : Settles engine s) (c : Call) :
    Settles engine (engine.beginning s c) := by
  have hkept := beginning_kept hgraph hs.kept c
  cases c with
  | resolve node => exact hs
  | run => exact hs
  | apply node attributes =>
    rcases beginning_apply_cases engine s node attributes with
      ⟨hbeginning, _⟩ | ⟨supplied, value, _, _, hbeginning, _⟩
    · rw [hbeginning]
      exact hs
    · rw [hbeginning] at hkept ⊢
      exact ⟨hkept, fun m hm => (State.phase_eq_inProgress_iff.mp hm).2 rfl, fun m => Nat.zero_le 1⟩

/-- A call is a course from its beginning. -/
theorem after_settles (hgraph : engine.graph.Acyclic) (hs : Settles engine s) (c : Call)
    (hregular : engine.RaisesErrorsOnly (engine.after s c).applied) :
    Settles engine (engine.after s c) ∧ Course (engine.beginning s c) (engine.after s c) := by
  have hstart := beginning_settles hgraph hs c
  rw [applied_after] at hregular
  have hresolve : ∀ start m, engine.Declared m →
      Preserves (Rests engine (engine.beginning s c).applied start) (engine.resolveNode m) :=
    fun start m => Rests.resolveNode hgraph (isRegular_verdict hgraph hregular m)
  have hreport : ∀ start t nodes, Rests engine (engine.beginning s c).applied start t →
      Rests engine (engine.beginning s c).applied start (t.report nodes) :=
    fun start t nodes ht => ht.report nodes
  suffices hrests : Rests engine (engine.beginning s c).applied (engine.beginning s c)
      (engine.after s c) from
    ⟨⟨after_kept hgraph hs.kept c, hrests.idle, hrests.course.evaluationCount_le_one hstart.once⟩,
      hrests.course⟩
  have hfirst : Rests engine (engine.beginning s c).applied (engine.beginning s c)
      (engine.beginning s c) := ⟨hstart.kept.orderly, .refl, hstart.idle⟩
  cases c with
  | resolve node =>
    exact resolve_preserves (fun hhas => hresolve _ node (Graph.has_iff_mem_addresses.mp hhas)) s
      hfirst
  | run => exact run_preserves (fun a ha => hresolve _ (.ofAddress a) ha) (hreport _) s hfirst
  | apply node attributes =>
    rcases beginning_apply_cases engine s node attributes with
      ⟨hbeginning, hafter⟩ | ⟨supplied, value, _, _, hbeginning, hafter⟩
    · rw [hafter]
      rwa [hbeginning] at hfirst ⊢
    · rw [hafter]
      rw [hbeginning] at hresolve hreport hfirst ⊢
      exact resumption_preserves (fun a ha => hresolve _ (.ofAddress a) ha) (hreport _)
        node.address _ hfirst

/-- After any calls no node is in progress, and none has been evaluated twice in the last pass. -/
theorem afterAll_settles (hgraph : engine.graph.Acyclic) (calls : List Call)
    (hregular : ∀ earlier, earlier <+: calls →
      engine.RaisesErrorsOnly (engine.afterAll earlier).applied) :
    Settles engine (engine.afterAll calls) := by
  induction calls using List.reverseRecOn with
  | nil => exact initial_settles engine
  | append_singleton calls c ih =>
    have hlast := hregular (calls ++ [c]) (List.prefix_refl _)
    have hs := ih fun earlier h => hregular earlier (h.trans (List.prefix_append _ _))
    rw [afterAll_append] at hlast ⊢
    exact (after_settles hgraph hs c hlast).1

/-- A call that supplies no attributes. -/
def Call.IsResolution : Call → Prop
  | .apply _ _ => False
  | _ => True

/-- Resolutions go on with the pass that has begun. -/
theorem course_afterAll (hgraph : engine.graph.Acyclic) (earlier : List Call) (c : Call)
    (later : List Call) (hlater : ∀ c' ∈ later, c'.IsResolution)
    (hregular : ∀ calls, calls <+: earlier ++ c :: later →
      engine.RaisesErrorsOnly (engine.afterAll calls).applied) :
    Course (engine.beginning (engine.afterAll earlier) c)
      (engine.afterAll (earlier ++ c :: later)) := by
  induction later using List.reverseRecOn with
  | nil =>
    have hs := afterAll_settles hgraph earlier fun calls h =>
      hregular calls (h.trans (List.prefix_append _ _))
    have hlast := hregular (earlier ++ [c]) (List.prefix_refl _)
    rw [afterAll_append] at hlast ⊢
    exact (after_settles hgraph hs c hlast).2
  | append_singleton later c' ih =>
    have hsame : earlier ++ c :: (later ++ [c']) = (earlier ++ c :: later) ++ [c'] := by simp
    rw [hsame] at hregular ⊢
    have hbefore : ∀ calls, calls <+: earlier ++ c :: later →
        engine.RaisesErrorsOnly (engine.afterAll calls).applied :=
      fun calls h => hregular calls (h.trans (List.prefix_append _ _))
    have hcourse := ih (fun c'' h => hlater c'' (List.mem_append_left _ h)) hbefore
    have hs := afterAll_settles hgraph (earlier ++ c :: later) hbefore
    have hlast := hregular _ (List.prefix_refl _)
    rw [afterAll_append] at hlast ⊢
    have hnext := (after_settles hgraph hs c' hlast).2
    have hbeginning : engine.beginning (engine.afterAll (earlier ++ c :: later)) c'
        = engine.afterAll (earlier ++ c :: later) := by
      cases c' with
      | resolve node => rfl
      | run => rfl
      | apply node attributes =>
        exact (hlater (.apply node attributes) (List.mem_append_right _ List.mem_cons_self)).elim
    rw [hbeginning] at hnext
    exact hcourse.trans hnext

/-! ## Main statement -/

/-- The status of a node tells whether a report holds a value for it, or a failure of its own, or
one that it has been skipped for. -/
theorem Orderly.status_reported (hgraph : engine.graph.Acyclic)
    (hs : Orderly engine overlay Admitted s) (node : NodeId) :
    (s.status node = .resolved ↔ ∃ v, (engine.reportOf s).value? node = some v)
      ∧ (s.status node = .failed
          ↔ ∃ f ∈ (engine.reportOf s).failures, f.node = node ∧ f.isSkipped = false)
      ∧ (s.status node = .skipped
          ↔ ∃ f ∈ (engine.reportOf s).failures, f.node = node ∧ f.isSkipped = true) := by
  have hfailure : ∀ skipped, (∃ f ∈ (engine.reportOf s).failures, f.node = node
        ∧ f.isSkipped = skipped)
      ↔ ∃ f, Table.get? s.settled node = some (.failure f) ∧ f.isSkipped = skipped := by
    intro skipped
    constructor
    · rintro ⟨f, hf, rfl, hskipped⟩
      exact ⟨f, (hs.mem_reported_failures_iff hgraph).mp hf, hskipped⟩
    · rintro ⟨f, hf, hskipped⟩
      have hnode := hs.sound.node_of_failure hgraph hf
      exact ⟨f, (hs.mem_reported_failures_iff hgraph).mpr (by rwa [hnode]), hnode, hskipped⟩
  refine ⟨?_, ?_, ?_⟩
  · rw [State.status_eq_resolved_iff, Option.isSome_iff_exists]
    exact exists_congr fun v => hs.reported_value_iff.symm
  · rw [hfailure]
    unfold State.status
    rcases Table.get? s.settled node with _ | v | f
    · simp
    · simp
    · by_cases hskipped : f.isSkipped = true <;> simp [hskipped]
  · rw [hfailure]
    unfold State.status
    rcases Table.get? s.settled node with _ | v | f
    · simp
    · simp
    · by_cases hskipped : f.isSkipped = true <;> simp [hskipped]

end Engine

end Groundplan
