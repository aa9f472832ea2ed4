import Mathlib.Data.Nat.Cast.Order.Ring
import NodeSrt.WaitForConditionSteps

/-! # A condition that fails

The error of an invocation leaves the async executor, whose own promise nobody holds. The
promise of the call is left as it is and the timer stays armed. -/
namespace WaitForCondition

open TransitionSystem

variable {ε : Type*}

/-! ## Failing invocations -/

structure Waiting.FailedAt (s : Waiting ε) (k : ℕ) (e : ε) : Prop where
  executor : s.executor = .rejected e
  invocations : s.invocations = List.range' 1 k
  pending : s.returned = .pending

/-- The failure reaches the caller, the condition is left alone and no timer stays armed. -/
structure FailurePropagated (l : Limits) (s : Waiting ε) (e : ε) : Prop where
  rejects : ∃ t, (machine l ε).Execution s t ∧ t.returned = .rejected e
  not_invoked : ∀ t, (machine l ε).Execution s t → t.invocations = s.invocations
  disarmed : s.timeout = none

/-- The counter is the number of the last invocation, and an executor that has failed is
over. -/
structure Counted (s : Waiting ε) : Prop where
  fresh : s.phase = .notCalled → s.i = 1 ∧ s.invocations = [] ∧ s.executor = .pending
  awaits : s.Awaits → s.invocations.length = s.i ∧ s.executor = .pending
  rejected : ∀ e, s.executor = .rejected e → s.phase = .finished ∧ s.invocations.length = s.i

variable {l : Limits} {s t : Waiting ε}

namespace Counted

theorem return_ (s : Waiting ε) : Counted s.return_ :=
  ⟨nofun, fun ha => absurd rfl ha.2, nofun⟩

theorem throw_ (h : s.invocations.length = s.i) (e : ε) : Counted (s.throw_ e) :=
  ⟨nofun, fun ha => absurd rfl ha.2, fun _ _ => ⟨rfl, h⟩⟩

theorem loopHead (h : s.invocations.length + 1 = s.i) (hpend : s.executor = .pending)
    (thrown : Option ε) : Counted (s.loopHead l thrown) := by
  unfold Waiting.loopHead
  split_ifs
  · exact return_ s
  · cases thrown with
    | none =>
      refine ⟨(fun hp => by cases hp), fun _ => ⟨?_, hpend⟩, fun e he => ?_⟩
      · simpa [Waiting.invoke] using h
      · cases hpend.symm.trans he
    | some e =>
      apply throw_
      simpa using h
  · exact return_ _

theorem settle (h : Counted s) (hp : s.phase = .awaitingCondition) (ret : Except ε Ret) :
    Counted (s.settle l ret) := by
  obtain ⟨hlen, hpend⟩ := h.awaits ⟨by simp [hp], by simp [hp]⟩
  unfold Waiting.settle
  cases ret with
  | error e => exact throw_ hlen e
  | ok ret =>
    dsimp only
    split_ifs
    · exact return_ s
    · exact return_ _
    · exact return_ _
    · exact return_ _
    · exact ⟨nofun, fun _ => ⟨hlen, hpend⟩, fun e he => absurd (hpend.symm.trans he) nofun⟩

theorem next (h : Counted s) {e : WaitEvent ε} (he : s.Enabled e) : Counted (s.next l e) := by
  cases e with
  | call thrown =>
    obtain ⟨hi, hinv, hpend⟩ := h.fresh he
    simp only [Waiting.next, Waiting.call]
    split
    · exact return_ _
    · apply loopHead
      · simp [hi, hinv]
      · exact hpend
  | pass ms => exact ⟨fun hp => absurd hp he.1, h.awaits, h.rejected⟩
  | settle ret => exact h.settle he ret
  | wake thrown =>
    cases hp : s.phase with
    | sleeping due =>
      obtain ⟨hlen, hpend⟩ := h.awaits ⟨by simp [hp], by simp [hp]⟩
      simp only [Waiting.next, Waiting.wake]
      split_ifs
      · exact return_ _
      · apply loopHead
        · simp [hlen]
        · exact hpend
    | _ => simp [Waiting.Enabled, hp] at he
  | timeout =>
    constructor
    · simpa [Waiting.next, Waiting.onTimeout] using h.fresh
    · simpa [Waiting.next, Waiting.onTimeout, Waiting.Awaits] using h.awaits
    · simpa [Waiting.next, Waiting.onTimeout] using h.rejected

end Counted

theorem counted {now : ℚ} (h : (machine l ε).Execution (start now) s) : Counted s := by
  apply h.invariant ⟨fun _ => ⟨rfl, rfl, rfl⟩, fun ha => absurd rfl ha.1, nofun⟩
  intro u e hu he
  exact hu.next he

/-! ## What becomes of the call -/

/-- The call after invocation `k` has failed. Only the timer can still settle it, with `-k`. -/
structure Abandoned (l : Limits) (now : ℚ) (k : ℕ) (e : ε) (s : Waiting ε) : Prop where
  executor : s.executor = .rejected e
  finished : s.phase = .finished
  count : s.i = k
  invocations : s.invocations = List.range' 1 k
  promise : s.returned = .pending ∧ s.timeout = l.timer now ∨
    s.timeout = none ∧ ∃ due moment, l.timer now = some due ∧ due ≤ moment ∧
      s.returned = .resolved (-k) moment

variable {now : ℚ} {k : ℕ} {e : ε}

theorem Waiting.FailedAt.abandoned (h : (machine l ε).Execution (start now) s)
    (hf : s.FailedAt k e) : Abandoned l now k e s := by
  obtain ⟨hp, hlen⟩ := (counted h).rejected e hf.executor
  refine ⟨hf.executor, hp, ?_, hf.invocations, .inl ⟨hf.pending, ?_⟩⟩
  · rw [← hlen, hf.invocations, List.length_range']
  · exact (timerOfCall h).kept (by simp [hp]) hf.pending

theorem Abandoned.next (h : Abandoned l now k e s) {event : WaitEvent ε}
    (he : s.Enabled event) : Abandoned l now k e (s.next l event) := by
  cases event with
  | call thrown => exact absurd (h.finished.symm.trans he) nofun
  | pass ms => exact ⟨h.executor, h.finished, h.count, h.invocations, h.promise⟩
  | settle ret => exact absurd (h.finished.symm.trans he) nofun
  | wake thrown => simp [Waiting.Enabled, h.finished] at he
  | timeout =>
    rcases h.promise with ⟨hpend, htimer⟩ | ⟨hnone, -⟩
    · cases ht : s.timeout with
      | none => simp [Waiting.Enabled, ht] at he
      | some due =>
        have hdue : due ≤ s.clock := by simpa [Waiting.Enabled, ht] using he
        have hr := resolve_of_pending (s := { s with timeout := none, resolved := true }) hpend
          (-s.i)
        obtain ⟨-, hphase, hi, -, hnone, -, hexec, hinv⟩ :=
          resolve_frame { s with timeout := none, resolved := true } (-s.i : ℚ)
        refine ⟨hexec.trans h.executor, hphase.trans h.finished, hi.trans h.count,
          hinv.trans h.invocations, .inr ⟨hnone, due, s.clock, ?_, hdue, ?_⟩⟩
        · rw [← htimer, ht]
        · rw [← h.count]
          exact hr
    · simp [Waiting.Enabled, hnone] at he

/-! ## Every invocation can fail -/

/-- The call without a deadline when `k` attempts have yielded false and slept. -/
def afterAttempts (l : Limits) (now : ℚ) (k : ℕ) : Waiting ε where
  clock := now + k * waitDelay l.ifFalseThenSleepForMs
  phase := .notCalled
  i := k + 1
  resolved := false
  executedTimeOnStart := now
  timeout := none
  returned := .pending
  executor := .pending
  invocations := List.range' 1 k

theorem timerDelay_nonneg (after : WithTop ℚ) : 0 ≤ timerDelay after := by
  unfold timerDelay
  split
  · exact zero_le_one
  · split_ifs with h
    · exact Int.cast_nonneg (Int.floor_nonneg.mpr (zero_le_one.trans h.1))
    · exact zero_le_one

theorem waitDelay_nonneg (msecs : WithTop ℚ) : 0 ≤ waitDelay msecs := by
  unfold waitDelay
  split_ifs
  · exact le_rfl
  · exact timerDelay_nonneg _
  · exact timerDelay_nonneg _

theorem not_pastDeadline (hno : l.NoDeadline) (s : Waiting ε) : ¬ s.PastDeadline l := by
  simp [Waiting.PastDeadline, hno.1, hno.2]

theorem call_start (hno : l.NoDeadline) (hmax : ((1 : ℕ) : WithTop ℚ) ≤ l.maxAttempts)
    (thrown : Option ε) : (start now).call l thrown = (afterAttempts l now 0).invoke thrown := by
  have hlate : ¬ l.timeoutOn < now := by simp [hno.2]
  rw [Waiting.call, if_neg (by exact hlate), loopHead_of_allowed (by exact hmax)]
  change Waiting.invoke { (start now : Waiting ε) with timeout := l.timer now } thrown = _
  rw [Limits.timer, if_pos hno]
  simp [afterAttempts, start]

/-- The end of the sleep after the next attempt. -/
def slept (l : Limits) (now : ℚ) (k : ℕ) : Waiting ε :=
  { afterAttempts l now (k + 1) with
    phase := .sleeping (now + (k + 1 : ℕ) * waitDelay l.ifFalseThenSleepForMs)
    i := k + 1 }

theorem attempt_sleeps (hno : l.NoDeadline) (hne : ((k + 1 : ℕ) : WithTop ℚ) ≠ l.maxAttempts) :
    (machine l ε).Execution ((afterAttempts l now k).invoke none) (slept l now k) := by
  have hlast : ¬ (Ret.other = .CMDFLOW_DIE ∨ ((k + 1 : ℕ) : WithTop ℚ) = l.maxAttempts) := by
    rintro (h | h)
    · cases h
    · exact hne h
  have hsleeps : ((afterAttempts l now k).invoke none : Waiting ε).settle l (.ok .other) =
      { (afterAttempts l now k).invoke none with
        phase := .sleeping ((afterAttempts l now k : Waiting ε).clock +
          waitDelay l.ifFalseThenSleepForMs) } := by
    simp only [Waiting.settle]
    rw [if_neg (by exact Bool.false_ne_true), if_neg nofun, if_neg (by exact hlast),
      if_neg (not_pastDeadline hno _)]
    rfl
  have hclock : now + k * waitDelay l.ifFalseThenSleepForMs + waitDelay l.ifFalseThenSleepForMs =
      now + (k + 1 : ℕ) * waitDelay l.ifFalseThenSleepForMs := by
    rw [add_assoc, Nat.cast_succ, add_one_mul]
  have hslept : (slept l now k : Waiting ε) =
      Waiting.next l (Waiting.settle l ((afterAttempts l now k).invoke none) (.ok .other))
        (.pass (waitDelay l.ifFalseThenSleepForMs)) := by
    rw [hsleeps]
    simp [slept, afterAttempts, Waiting.next, Waiting.invoke, hclock, List.range'_concat,
      Nat.add_comm]
  rw [hslept]
  have hsettle := Machine.Execution.step (M := machine l ε)
    (s := (afterAttempts l now k).invoke none) (e := .settle (.ok .other)) (by exact rfl)
  have hpass : (machine l ε).Enabled _ (.pass (waitDelay l.ifFalseThenSleepForMs)) :=
    ⟨(settle_went (l := l) ((afterAttempts l now k).invoke none) (.ok .other)).frame.2.1,
      waitDelay_nonneg _⟩
  exact hsettle.tail hpass

theorem slept_wakes (now : ℚ) (hno : l.NoDeadline)
    (hmax : ((k + 2 : ℕ) : WithTop ℚ) ≤ l.maxAttempts) (thrown : Option ε) :
    (slept l now k).Enabled (.wake thrown) ∧
      (slept l now k).wake l thrown = (afterAttempts l now (k + 1)).invoke thrown := by
  constructor
  · exact le_refl (now + (k + 1 : ℕ) * waitDelay l.ifFalseThenSleepForMs)
  · rw [Waiting.wake, if_neg (not_pastDeadline hno _), loopHead_of_allowed (by exact hmax)]
    rfl

/-- Every invocation that is allowed can be reached, and it may throw. -/
theorem invoke_reached (hno : l.NoDeadline) (k : ℕ)
    (hmax : ((k + 1 : ℕ) : WithTop ℚ) ≤ l.maxAttempts) (thrown : Option ε) :
    (machine l ε).Execution (start now) ((afterAttempts l now k).invoke thrown) := by
  induction k generalizing thrown with
  | zero =>
    rw [← call_start hno hmax]
    exact Machine.Execution.step (M := machine l ε) (s := start now) (e := .call thrown) rfl
  | succ k ih =>
    have hlt : ((k + 1 : ℕ) : WithTop ℚ) < l.maxAttempts :=
      lt_of_lt_of_le (Nat.cast_lt.mpr (Nat.lt_succ_self _)) hmax
    obtain ⟨henabled, hwake⟩ := slept_wakes now hno hmax thrown
    rw [← hwake]
    have hslept := (ih hlt.le none).trans (attempt_sleeps hno hlt.ne)
    exact hslept.tail (show (machine l ε).Enabled _ (.wake thrown) from henabled)

theorem invoke_failedAt (l : Limits) (now : ℚ) (k : ℕ) (e : ε) :
    ((afterAttempts l now k).invoke (some e)).FailedAt (k + 1) e := by
  refine ⟨rfl, ?_, rfl⟩
  simp [Waiting.invoke, Waiting.throw_, afterAttempts, List.range'_concat, Nat.add_comm]

/-- The failure of an invocation never propagates, and every invocation can fail. Without a
deadline the promise stays pending for ever, else the timer resolves it as if the call had timed
out. -/
theorem failure_never_propagates (opts : Opts) (now : ℚ) (k : ℕ) (e : ε) :
    (opts.limits.NoDeadline → 1 ≤ k → (k : WithTop ℚ) ≤ opts.limits.maxAttempts →
      ∃ s, (machine opts.limits ε).Execution (start now) s ∧ s.FailedAt k e) ∧
    ∀ s, (machine opts.limits ε).Execution (start now) s → s.FailedAt k e →
      ¬ FailurePropagated opts.limits s e ∧
      ∀ t, (machine opts.limits ε).Execution s t → t.invocations = s.invocations ∧
        (t.returned = .pending ∧ t.timeout = opts.limits.timer now ∨
          ∃ due moment, opts.limits.timer now = some due ∧ due ≤ moment ∧
            t.returned = .resolved (-k) moment) := by
  constructor
  · intro hno hk hmax
    obtain ⟨k, rfl⟩ := Nat.exists_eq_succ_of_ne_zero (Nat.one_le_iff_ne_zero.mp hk)
    exact ⟨_, invoke_reached hno k hmax (some e), invoke_failedAt opts.limits now k e⟩
  · intro s hs hf
    have habandoned : ∀ t, (machine opts.limits ε).Execution s t →
        Abandoned opts.limits now k e t := fun t ht =>
      ht.invariant (hf.abandoned hs) fun u event hu he => hu.next he
    constructor
    · rintro ⟨⟨t, ht, hrejected⟩, -, -⟩
      rcases (habandoned t ht).promise with ⟨hpend, -⟩ | ⟨-, _, _, -, -, hres⟩
      · exact absurd (hpend.symm.trans hrejected) nofun
      · exact absurd (hres.symm.trans hrejected) nofun
    · intro t ht
      have habs := habandoned t ht
      refine ⟨habs.invocations.trans hf.invocations.symm, ?_⟩
      rcases habs.promise with hpend | ⟨-, due, moment, hdue, hle, hres⟩
      · exact .inl hpend
      · exact .inr ⟨due, moment, hdue, hle, hres⟩

/-- The first invocation throws with a second to go. -/
def throwsAtOnce : List (WaitEvent Unit) := [.call (some ())]

theorem failure_never_propagates_atOnce :
    ¬ FailurePropagated oneSecond.limits
      ((machine oneSecond.limits Unit).runTrace (start 1700000000000) throwsAtOnce) () :=
  ((failure_never_propagates oneSecond 1700000000000 1 ()).2 _
    (Machine.execution_of_trace _ _ throwsAtOnce (by decide +kernel))
    ⟨by decide +kernel, by decide +kernel, by decide +kernel⟩).1

/-- A caller that passes a throwing condition never hears of the error. -/
theorem thrown_error_is_lost :
    ¬ ∀ (opts : Opts) (now : ℚ) (k : ℕ) (s : Waiting Unit),
      (machine opts.limits Unit).Execution (start now) s → s.FailedAt k () →
        FailurePropagated opts.limits s () := by
  intro h
  have hrun := Machine.execution_of_trace (machine oneSecond.limits Unit)
    (start 1700000000000) throwsAtOnce (by decide +kernel)
  have hprop := h oneSecond 1700000000000 1 _ hrun
    ⟨by decide +kernel, by decide +kernel, by decide +kernel⟩
  exact absurd hprop.disarmed (by decide +kernel)

end WaitForCondition
