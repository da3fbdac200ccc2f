import Groundplan.Proofs.Decimal.Monotone
import Groundplan.Proofs.Library.Call
import Groundplan.Proofs.Safety.Library

/-!
# Ranges of Numbers

A range goes from its start towards its limit by adding the step again and again, each time rounded
to the context of the language.  The numbers that are given may have more digits than the context
keeps, so a sum may be rounded back to where it came from, or beyond it.  As rounding is monotone, all
later sums then stay back as well; the limit is never reached, and the range is refused as too long.
So the numbers of a range that is returned run strictly in the direction of its step.

## Main Definitions

- `Library.Precedes`, `Library.Follows`: the order of the numbers of a range, and one step
- `Library.Progression`: what the numbers of a range are
- `Library.Run`: the numbers that are gone through from one number on

## Main Statements

- `Library.Run.advances`: a range that ends never goes back
- `Library.range_eq_ok_iff`: the progression is what a range returns
- `Library.range_progression`: calls of the function
-/

namespace Groundplan.Library

open Decimal (Context sum)

variable {args found rest : List Decimal} {start limit step n m a b c : Decimal}

/-! ## Progressions -/

/-- The start, the limit and the step of a range, as its arguments give them. -/
inductive Bounds : List Decimal → Decimal → Decimal → Decimal → Prop where
  | limit (limit : Decimal) : Bounds [limit] (.ofNat 0) limit (.ofNat 1)
  | upward {start limit : Decimal} (h : start.toRat ≤ limit.toRat) :
    Bounds [start, limit] start limit (.ofNat 1)
  | downward {start limit : Decimal} (h : limit.toRat < start.toRat) :
    Bounds [start, limit] start limit (Decimal.ofNat 1).negate
  | stepped (start limit step : Decimal) : Bounds [start, limit, step] start limit step

/-- One number comes strictly before another in the direction of a step. -/
def Precedes (step a b : Decimal) : Prop :=
  0 < step.toRat ∧ a.toRat < b.toRat ∨ step.toRat < 0 ∧ b.toRat < a.toRat

/-- One number follows another by a step: it is their sum in the context of the language, and has the
value of the exact sum after rounding. -/
structure Follows (step a b : Decimal) : Prop where
  add_eq : Context.standard.add a step = .ok b
  toRat_eq : b.toRat = Context.standard.nearest (sum a step)

/-- The numbers of a range from `start` to `limit`: at most 1024, each the one before it plus the
step after rounding, all of them strictly before the limit and in the order of the step, up to the
last one that is before the limit. -/
structure Progression (start limit step : Decimal) (found : List Decimal) : Prop where
  length_le : found.length ≤ 1024
  ne_nil_iff : found ≠ [] ↔ Precedes step start limit
  head_eq : ∀ n ∈ found.head?, n = start
  ordered : found.Pairwise (Precedes step)
  chain : found.IsChain (Follows step)
  before : ∀ n ∈ found, Precedes step n limit
  last : ∀ n ∈ found.getLast?, ∃ next, Follows step n next ∧ ¬ Precedes step next limit

/-- The step is not zero, and the direction of the limit can be computed with fewer digits. -/
structure Directed (start limit step : Decimal) : Prop where
  step_ne : step.toRat ≠ 0
  judged : ∃ distance direction, Context.coarse.subtract limit start = .ok distance
    ∧ Context.coarse.multiply distance step = .ok direction

theorem Follows.of_add (h : Context.standard.add a step = .ok b) : Follows step a b :=
  ⟨h, Decimal.toRat_of_add Decimal.Context.standard_isSane h⟩

namespace Precedes

theorem trans (hab : Precedes step a b) (hbc : Precedes step b c) : Precedes step a c := by
  rcases hab with ⟨hstep, hab⟩ | ⟨hstep, hab⟩ <;> rcases hbc with ⟨hstep', hbc⟩ | ⟨hstep', hbc⟩
  · exact .inl ⟨hstep, hab.trans hbc⟩
  · exact absurd hstep' hstep.not_gt
  · exact absurd hstep' hstep.not_gt
  · exact .inr ⟨hstep, hbc.trans hab⟩

instance : IsTrans Decimal (Precedes step) :=
  ⟨fun _ _ _ => trans⟩

/-- What does not come after a number comes before whatever that number comes before. -/
theorem of_not_precedes (hac : Precedes step a c) (hab : ¬ Precedes step a b) :
    Precedes step b c := by
  unfold Precedes at *
  rcases hac with ⟨hstep, hac⟩ | ⟨hstep, hac⟩
  · exact .inl ⟨hstep, lt_of_le_of_lt (not_lt.mp fun h => hab (.inl ⟨hstep, h⟩)) hac⟩
  · exact .inr ⟨hstep, lt_of_lt_of_le hac (not_lt.mp fun h => hab (.inr ⟨hstep, h⟩))⟩

/-- A step that leads back, or nowhere, is followed by steps that do so too: rounding is monotone. -/
theorem not_of_follows (hfirst : Follows step a b) (hsecond : Follows step b c)
    (h : ¬ Precedes step a b) : ¬ Precedes step b c := by
  have hmono : ∀ x y : Decimal, x.toRat ≤ y.toRat →
      Context.standard.nearest (sum x step) ≤ Context.standard.nearest (sum y step) := by
    intro x y hxy
    refine Decimal.nearest_mono Decimal.Context.standard_isSane ?_
    rw [Decimal.toRat_sum, Decimal.toRat_sum]
    exact add_le_add_left hxy _
  rintro (⟨hstep, hbc⟩ | ⟨hstep, hcb⟩)
  · have hback : b.toRat ≤ a.toRat := not_lt.mp fun hab => h (.inl ⟨hstep, hab⟩)
    have hnext := hmono b a hback
    rw [← hfirst.toRat_eq, ← hsecond.toRat_eq] at hnext
    exact absurd hbc (not_lt.mpr hnext)
  · have hback : a.toRat ≤ b.toRat := not_lt.mp fun hba => h (.inr ⟨hstep, hba⟩)
    have hnext := hmono a b hback
    rw [← hfirst.toRat_eq, ← hsecond.toRat_eq] at hnext
    exact absurd hcb (not_lt.mpr hnext)

end Precedes

/-! ## Runs -/

/-- The numbers that a range goes through from one number on, until one is not before the limit. -/
inductive Run (limit step : Decimal) : Decimal → List Decimal → Prop where
  | stop {n : Decimal} (h : ¬ Precedes step n limit) : Run limit step n []
  | next {n m : Decimal} {rest : List Decimal} (h : Precedes step n limit)
      (hnext : Follows step n m) (hrest : Run limit step m rest) : Run limit step n (n :: rest)

namespace Run

/-- A range that ends never goes back: otherwise it would stay before its limit for ever. -/
theorem advances (hrun : Run limit step m rest) (hn : Precedes step n limit)
    (hnext : Follows step n m) : Precedes step n m := by
  induction hrun generalizing n with
  | stop hstop =>
    by_contra hback
    exact hstop (hn.of_not_precedes hback)
  | next hm hnext' _ ih =>
    by_contra hback
    exact Precedes.not_of_follows hnext hnext' hback (ih hm hnext')

theorem ne_nil_iff (h : Run limit step n found) : found ≠ [] ↔ Precedes step n limit := by
  cases h with
  | stop hstop => simpa using hstop
  | next hn _ _ => simpa using hn

theorem head_eq (h : Run limit step n found) : ∀ m ∈ found.head?, m = n := by
  cases h with
  | stop _ => simp
  | next _ _ _ => simp

theorem chain (h : Run limit step n found) :
    found.IsChain fun a b => Follows step a b ∧ Precedes step a b := by
  induction h with
  | stop _ => exact .nil
  | next hn hnext hrest ih =>
    refine List.isChain_cons.mpr ⟨fun m hm => ?_, ih⟩
    rw [hrest.head_eq m hm]
    exact ⟨hnext, hrest.advances hn hnext⟩

theorem before (h : Run limit step n found) : ∀ m ∈ found, Precedes step m limit := by
  induction h with
  | stop _ => simp
  | next hn _ _ ih => exact List.forall_mem_cons.mpr ⟨hn, ih⟩

theorem last (h : Run limit step n found) :
    ∀ m ∈ found.getLast?, ∃ next, Follows step m next ∧ ¬ Precedes step next limit := by
  induction h with
  | stop _ => simp
  | next hn hnext hrest ih =>
    cases hrest with
    | stop hstop => simpa using ⟨_, hnext, hstop⟩
    | next _ _ _ =>
      rw [List.getLast?_cons_cons]
      exact ih

theorem progression (h : Run limit step start found) (hlength : found.length ≤ 1024) :
    Progression start limit step found where
  length_le := hlength
  ne_nil_iff := h.ne_nil_iff
  head_eq := h.head_eq
  ordered := (h.chain.imp fun _ _ hab => hab.2).pairwise
  chain := h.chain.imp fun _ _ hab => hab.1
  before := h.before
  last := h.last

end Run

/-- A progression is what is gone through from its start. -/
theorem Progression.run (h : Progression start limit step found) : Run limit step start found := by
  induction found generalizing start with
  | nil => exact .stop fun hstart => h.ne_nil_iff.mpr hstart rfl
  | cons n rest ih =>
    obtain rfl : n = start := h.head_eq n rfl
    have hn := h.before n List.mem_cons_self
    cases rest with
    | nil =>
      obtain ⟨next, hnext, hstop⟩ := h.last n rfl
      exact .next hn hnext (.stop hstop)
    | cons m rest =>
      obtain ⟨hnext, hchain⟩ := List.isChain_cons_cons.mp h.chain
      have hm := h.before m (by simp)
      refine .next hn hnext (ih ?_)
      exact
        { length_le := (Nat.le_succ _).trans h.length_le
          ne_nil_iff := by simpa using hm
          head_eq := by simp
          ordered := (List.pairwise_cons.mp h.ordered).2
          chain := hchain
          before := fun k hk => h.before k (List.mem_cons_of_mem n hk)
          last := fun k hk => h.last k (by rwa [List.getLast?_cons_cons]) }

/-! ## The loop -/

theorem ofArithmetic_eq_ok_iff {α : Type} {r : Except Decimal.Signal α} {v : α} :
    ofArithmetic r = .ok v ↔ r = .ok v := by
  cases r with
  | ok _ => simp [ofArithmetic, Except.mapError]
  | error _ => simp [ofArithmetic, Except.mapError]

section Loop

variable (hstep : step.toRat ≠ 0)

include hstep

theorem inside_iff : (if step.negative then limit.less n else n.less limit) = true ↔
    Precedes step n limit := by
  have hzero := Decimal.toRat_eq_zero_iff.not.mp hstep
  have hsign := Decimal.toRat_neg_iff (d := step)
  unfold Precedes
  cases hnegative : step.negative with
  | true =>
    have hbelow : step.toRat < 0 := hsign.mpr ⟨hnegative, hzero⟩
    simp [Decimal.less_iff, hbelow, hbelow.not_gt]
  | false =>
    have habove : 0 < step.toRat :=
      lt_of_le_of_ne (not_lt.mp fun h => by simp [hsign.mp h] at hnegative) (Ne.symm hstep)
    simp [Decimal.less_iff, habove, habove.not_gt]

theorem rangeFrom_of_not_precedes (h : ¬ Precedes step n limit) (room : Nat) :
    rangeFrom limit step room n = .ok [] := by
  have hinside := (inside_iff hstep).not.mpr h
  rw [Bool.not_eq_true] at hinside
  unfold rangeFrom
  dsimp only
  rw [hinside]
  rfl

theorem rangeFrom_zero (h : Precedes step n limit) :
    ∃ p, rangeFrom limit step 0 n = fail p none := by
  rw [rangeFrom, (inside_iff hstep).mpr h]
  exact ⟨_, rfl⟩

theorem rangeFrom_succ (h : Precedes step n limit) (room : Nat) :
    rangeFrom limit step (room + 1) n = ofArithmetic (Context.standard.add n step) >>= fun next =>
      rangeFrom limit step room next >>= fun rest => .ok (n :: rest) := by
  rw [rangeFrom, (inside_iff hstep).mpr h]
  rfl

theorem rangeFrom_stop_iff (h : ¬ Precedes step n limit) {room : Nat} :
    rangeFrom limit step room n = .ok found ↔ found.length ≤ room ∧ Run limit step n found := by
  rw [rangeFrom_of_not_precedes hstep h, Except.ok.injEq]
  constructor
  · rintro rfl
    exact ⟨Nat.zero_le _, .stop h⟩
  · rintro ⟨-, hrun⟩
    cases hrun with
    | stop _ => rfl
    | next hn _ _ => exact absurd hn h

/-- The loop returns the numbers that are gone through if there is room for them. -/
theorem rangeFrom_eq_ok_iff {room : Nat} :
    rangeFrom limit step room n = .ok found ↔ found.length ≤ room ∧ Run limit step n found := by
  induction room generalizing n found with
  | zero =>
    by_cases h : Precedes step n limit
    · obtain ⟨p, hp⟩ := rangeFrom_zero hstep h
      rw [hp]
      constructor
      · intro hok
        cases hok
      · rintro ⟨hlength, hrun⟩
        exact absurd (List.length_eq_zero_iff.mp (Nat.le_zero.mp hlength)) (hrun.ne_nil_iff.mpr h)
    · exact rangeFrom_stop_iff hstep h
  | succ room ih =>
    by_cases h : Precedes step n limit
    · rw [rangeFrom_succ hstep h, bind_eq_ok_iff]
      constructor
      · rintro ⟨m, hm, hok⟩
        obtain ⟨rest, hrest, hfound⟩ := bind_eq_ok_iff.mp hok
        obtain ⟨hlength, hrun⟩ := ih.mp hrest
        cases hfound
        exact ⟨Nat.succ_le_succ hlength, .next h (.of_add (ofArithmetic_eq_ok_iff.mp hm)) hrun⟩
      · rintro ⟨hlength, hrun⟩
        cases hrun with
        | stop hstop => exact absurd h hstop
        | @next _ m rest _ hnext hrest =>
          refine ⟨m, ofArithmetic_eq_ok_iff.mpr hnext.add_eq, bind_eq_ok_iff.mpr ⟨rest, ?_, rfl⟩⟩
          exact ih.mpr ⟨Nat.le_of_succ_le_succ hlength, hrest⟩
    · exact rangeFrom_stop_iff hstep h

end Loop

/-! ## Arguments -/

/-- What a range does with its start, limit and step. -/
theorem range_eq (h : Bounds args start limit step) : range args = (do
    if step.isZero then fail (.functionCall "range" "step must not be zero") none
    let distance ← ofArithmetic (Context.coarse.subtract limit start)
    let direction ← ofArithmetic (Context.coarse.multiply distance step)
    if direction.sign < 0 then return []
    rangeFrom limit step rangeLimit start) := by
  cases h with
  | limit limit => rfl
  | @upward start limit hle =>
    have hless : limit.less start = false := by
      rw [← Bool.not_eq_true, Decimal.less_iff]
      exact not_lt.mpr hle
    simp only [range, hless]
    rfl
  | @downward start limit hlt =>
    simp only [range, Decimal.less_iff.mpr hlt]
    rfl
  | stepped start limit step => rfl

/-- Judged with fewer digits, the direction of the limit is right or left open. -/
theorem not_precedes_of_sign_neg {distance direction : Decimal}
    (hdistance : Context.coarse.subtract limit start = .ok distance)
    (hdirection : Context.coarse.multiply distance step = .ok direction)
    (hsign : direction.sign < 0) : ¬ Precedes step start limit := by
  obtain ⟨product, hproduct, hrounded⟩ :=
    Decimal.toRat_of_multiply Decimal.Context.coarse_isSane hdirection
  have hnearest := Decimal.toRat_of_subtract Decimal.Context.coarse_isSane hdistance
  have hvalue : (sum limit start.negate).toRat = limit.toRat - start.toRat := by
    rw [Decimal.toRat_sum, Decimal.toRat_negate, sub_eq_add_neg]
  rw [Decimal.sign_neg_iff, hrounded] at hsign
  have hnegative : distance.toRat * step.toRat < 0 := by
    rw [← hproduct]
    by_contra hnonneg
    exact absurd hsign (not_lt.mpr
      (Decimal.nearest_nonneg Decimal.Context.coarse_isSane (not_lt.mp hnonneg)))
  rintro (⟨hstep, hbefore⟩ | ⟨hstep, hbefore⟩)
  · have hdistance : 0 ≤ distance.toRat := by
      rw [hnearest]
      exact Decimal.nearest_nonneg Decimal.Context.coarse_isSane (by rw [hvalue]; linarith)
    exact absurd hnegative (not_lt.mpr (mul_nonneg hdistance hstep.le))
  · have hdistance : distance.toRat ≤ 0 := by
      rw [hnearest]
      exact Decimal.nearest_nonpos Decimal.Context.coarse_isSane (by rw [hvalue]; linarith)
    exact absurd hnegative (not_lt.mpr (mul_nonneg_of_nonpos_of_nonpos hdistance hstep.le))

/-- Arguments with a direction come to the loop, unless the limit lies behind the start. -/
theorem range_eq_ok_iff_run (h : Bounds args start limit step) :
    range args = .ok found ↔
      Directed start limit step ∧ found.length ≤ rangeLimit ∧ Run limit step start found := by
  rw [range_eq h]
  by_cases hzero : step.isZero
  · rw [if_pos hzero]
    constructor
    · intro hok
      cases hok
    · rintro ⟨hdirected, -⟩
      exact absurd (Decimal.toRat_eq_zero_iff.mpr (Decimal.isZero_iff.mp hzero)) hdirected.step_ne
  have hstep : step.toRat ≠ 0 := fun hvalue =>
    hzero (Decimal.isZero_iff.mpr (Decimal.toRat_eq_zero_iff.mp hvalue))
  have hloop : ∀ {distance direction : Decimal},
      Context.coarse.subtract limit start = .ok distance →
      Context.coarse.multiply distance step = .ok direction →
      ((if direction.sign < 0 then pure [] else rangeFrom limit step rangeLimit start) = .ok found
        ↔ found.length ≤ rangeLimit ∧ Run limit step start found) := by
    intro distance direction hdistance hdirection
    split
    · next hsign =>
      have hstop := not_precedes_of_sign_neg hdistance hdirection hsign
      rw [← rangeFrom_stop_iff hstep hstop, rangeFrom_of_not_precedes hstep hstop]
      rfl
    · exact rangeFrom_eq_ok_iff hstep
  rw [if_neg hzero]
  simp only [bind_eq_ok_iff, ofArithmetic_eq_ok_iff]
  constructor
  · rintro ⟨distance, hdistance, direction, hdirection, hok⟩
    exact ⟨⟨hstep, distance, direction, hdistance, hdirection⟩,
      (hloop hdistance hdirection).mp hok⟩
  · rintro ⟨⟨-, distance, direction, hdistance, hdirection⟩, hrun⟩
    exact ⟨distance, hdistance, direction, hdirection,
      (hloop hdistance hdirection).mpr hrun⟩

/-- A range returns the progression from its start to its limit. -/
theorem range_eq_ok_iff (h : Bounds args start limit step) :
    range args = .ok found ↔ Directed start limit step ∧ Progression start limit step found := by
  rw [range_eq_ok_iff_run h]
  exact and_congr_right fun _ =>
    ⟨fun ⟨hlength, hrun⟩ => hrun.progression hlength, fun hfound => ⟨hfound.length_le, hfound.run⟩⟩

/-- One, two or three numbers give a start, a limit and a step. -/
theorem exists_bounds (hsome : args ≠ []) (hcount : args.length ≤ 3) :
    ∃ start limit step, Bounds args start limit step := by
  match args, hsome, hcount with
  | [limit], _, _ => exact ⟨_, _, _, .limit limit⟩
  | [start, limit], _, _ =>
    rcases le_or_gt start.toRat limit.toRat with hle | hlt
    · exact ⟨_, _, _, .upward hle⟩
    · exact ⟨_, _, _, .downward hlt⟩
  | [start, limit, step], _, _ => exact ⟨_, _, _, .stepped start limit step⟩

/-! ## Calls -/

theorem numbers_map (function : String) (position : Int) (ns : List Decimal) :
    numbers function position (ns.map .number) = .ok ns := by
  induction ns with
  | nil => rfl
  | cons n ns ih =>
    rw [List.map_cons, numbers, ih]
    rfl

theorem call_range_eq_ok_iff (h : Bounds args start limit step) {v : Value} {span : Option Span} :
    standard.call "range" (args.map .number) span = .ok v ↔
      ∃ found, range args = .ok found ∧ v = .list (found.map .number) := by
  have hcall : standard.call "range" (args.map .number) span = .ok v ↔
      (numbers "range" 1 (args.map .number) >>= fun ns => range ns >>= fun found =>
        .ok (.list (found.map .number))) = .ok v := by
    cases h <;> exact call_eq_ok_iff "range" _ rfl rfl rfl
  rw [hcall, numbers_map, bind_eq_ok_iff]
  constructor
  · rintro ⟨ns, hns, hok⟩
    cases hns
    obtain ⟨found, hfound, hv⟩ := bind_eq_ok_iff.mp hok
    cases hv
    exact ⟨found, hfound, rfl⟩
  · rintro ⟨found, hfound, rfl⟩
    exact ⟨args, rfl, bind_eq_ok_iff.mpr ⟨found, hfound, rfl⟩⟩

/-- Calls with one, two or three numbers of any length return the progression from the start to the
limit that the numbers give, or fail with an error. -/
theorem range_progression (hsome : args ≠ []) (hcount : args.length ≤ 3) (span : Option Span) :
    ∃ start limit step, Bounds args start limit step
      ∧ (∀ v, standard.call "range" (args.map .number) span = .ok v ↔
        Directed start limit step
          ∧ ∃ found, Progression start limit step found ∧ v = .list (found.map .number))
      ∧ ((∃ v, standard.call "range" (args.map .number) span = .ok v)
        ∨ ∃ e, standard.call "range" (args.map .number) span = .error (.error e)) := by
  obtain ⟨start, limit, step, hbounds⟩ := exists_bounds hsome hcount
  refine ⟨start, limit, step, hbounds, fun v => ?_, ?_⟩
  · rw [call_range_eq_ok_iff hbounds]
    simp only [range_eq_ok_iff hbounds, and_assoc, exists_and_left]
  · have hraises := call_raises "range" (args.map .number) span
    match hcall : standard.call "range" (args.map .number) span with
    | .ok v => exact .inl ⟨v, rfl⟩
    | .error (.error e) => exact .inr ⟨e, rfl⟩
    | .error (.defect d) =>
      -- No defect escapes from this function.
      have hescape : ∀ d, ¬ EscapesFrom "range" d := by
        intro d
        cases d <;> simp [EscapesFrom, digitFunctions]
      exact absurd (hraises.defect d hcall) (hescape d)

/-- The start has one digit more than the context keeps, so the number after it is rounded up from
`10 ^ 128 + 8`, and the one after that, which is not returned, to the limit. -/
theorem range_progression_long :
    let start : Decimal := ⟨false, 10 ^ 128 + 1, 0⟩
    let limit : Decimal := ⟨false, 10 ^ 128 + 20, 0⟩
    let step : Decimal := ⟨false, 7, 0⟩
    let found : List Decimal := [start, ⟨false, 10 ^ 127 + 1, 1⟩]
    [start, limit, step] ≠ [] ∧ [start, limit, step].length ≤ 3
      ∧ standard.call "range" ([start, limit, step].map .number) none
        = .ok (.list (found.map .number))
      ∧ Progression start limit step found := by
  intro start limit step found
  have hsome : [start, limit, step] ≠ [] := List.cons_ne_nil _ _
  have hrange : range [start, limit, step] = .ok found :=
    toOption_eq_some_iff.mp (by decide +kernel)
  have hcall : standard.call "range" ([start, limit, step].map .number) none
      = .ok (.list (found.map .number)) :=
    (call_range_eq_ok_iff (.stepped start limit step)).mpr ⟨found, hrange, rfl⟩
  obtain ⟨_, _, _, hbounds, hiff, -⟩ := range_progression hsome (by decide) none
  cases hbounds with
  | stepped =>
    obtain ⟨-, found', hfound, hlist⟩ := (hiff _).mp hcall
    have hmap : found.map Value.number = found'.map .number := Value.list.inj hlist
    obtain rfl := List.map_injective_iff.mpr (fun _ _ => Value.number.inj) hmap
    exact ⟨hsome, by decide, hcall, hfound⟩

end Groundplan.Library
