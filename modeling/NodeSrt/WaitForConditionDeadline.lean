import Mathlib.Algebra.Order.Ring.Abs
import Mathlib.Data.Nat.Cast.Order.Ring
import NodeSrt.WaitForConditionSteps

/-! # The deadline of waitForCondition

The timer is given a moment where it wants a delay. Any moment of today is out of its range, so
it fires after a millisecond. -/
namespace WaitForCondition

open TransitionSystem

variable {ε : Type*} (l : Limits) (now : ℚ)

/-- The condition never yields `CMDFLOW_DIE`. It may throw. -/
def NeverDies (_ : Waiting ε) : WaitEvent ε → Prop
  | .settle (.ok .CMDFLOW_DIE) => False
  | _ => True

instance (s : Waiting ε) : (e : WaitEvent ε) → Decidable (NeverDies s e)
  | .settle (.ok .CMDFLOW_DIE) => isFalse id
  | .settle (.ok .true) | .settle (.ok .other) | .settle (.error _) => isTrue trivial
  | .call _ | .pass _ | .wake _ | .timeout => isTrue trivial

/-- The moment is past one of the deadlines of a call made at `now`. -/
def PastDeadlineAt (moment : ℚ) : Prop :=
  ((now : WithTop ℚ) + l.timeoutIn < moment) ∨ l.timeoutOn < moment

instance (moment : ℚ) : Decidable (PastDeadlineAt l now moment) :=
  inferInstanceAs (Decidable (_ ∨ _))

/-- A call that has given up did so past a deadline or after all attempts. -/
def GivesUpLate (s : Waiting ε) : Prop :=
  ∀ r moment, s.returned = .resolved r moment → r ≤ 0 →
    ((|r| : ℚ) : WithTop ℚ) < l.maxAttempts → PastDeadlineAt l now moment

/-- There is no timer, one attempt is all there is, or a deadline passes before the timer
fires. -/
def TooShortToMatter : Prop :=
  l.NoDeadline ∨ l.maxAttempts ≤ 1 ∨ l.timeoutIn < 1 ∨ l.timeoutOn < ((now + 1 : ℚ) : WithTop ℚ)

variable {l now} {s t : Waiting ε}

/-- A moment of today is no delay a timer can have. -/
theorem timer_of_today (hnow : TIMEOUT_MAX < now) (hlate : ¬ l.timeoutOn < now)
    (hno : ¬ l.NoDeadline) : l.timer now = some (now + 1) := by
  have hmin : (now : WithTop ℚ) ≤ min (now + l.timeoutIn) l.timeoutOn :=
    le_min (le_add_of_nonneg_right l.timeoutIn_pos.le) (not_lt.mp hlate)
  rw [Limits.timer, if_neg hno]
  cases hd : min ((now : WithTop ℚ) + l.timeoutIn) l.timeoutOn with
  | top => rfl
  | coe after =>
    rw [hd] at hmin
    have hafter : TIMEOUT_MAX < after := hnow.trans_le (WithTop.coe_le_coe.mp hmin)
    exact congrArg (fun d => some (now + d)) (if_neg fun h => absurd hafter (not_lt.mpr h.2))

/-- A call that never dies resolves with a reason, or by its timer once a millisecond is over. -/
structure Reasoned (l : Limits) (now : ℚ) (s : Waiting ε) : Prop where
  begun : (machine l ε).Execution (start now) s
  one_le : 1 ≤ s.i
  elapsed : now ≤ s.clock
  result : ∀ r moment, s.returned = .resolved r moment →
    0 < r ∨ l.maxAttempts ≤ ((|r| : ℚ) : WithTop ℚ) ∨ PastDeadlineAt l now moment ∨
      ¬ l.NoDeadline ∧ 1 ≤ |r| ∧ now + 1 ≤ moment

theorem untopD_eq {q : WithTop ℚ} {n : ℕ} (h : q < n) : q = (q.untopD 0 : ℚ) := by
  cases q with
  | top => exact absurd h (not_lt.mpr le_top)
  | coe q => rfl

theorem Reasoned.of_cause (hnow : TIMEOUT_MAX < now) (h : Reasoned l now s) {e : WaitEvent ε}
    (he : s.Enabled e) (hdie : NeverDies s e) {r : ℚ} (hcause : s.Cause l e r) :
    0 < r ∨ l.maxAttempts ≤ ((|r| : ℚ) : WithTop ℚ) ∨ PastDeadlineAt l now s.clock ∨
      ¬ l.NoDeadline ∧ 1 ≤ |r| ∧ now + 1 ≤ s.clock := by
  have hi : (1 : ℚ) ≤ s.i := Nat.one_le_cast.mpr h.one_le
  cases hcause with
  | late hlate => exact .inr (.inr (.inl (.inr hlate)))
  | success => exact .inl (zero_lt_one.trans_le hi)
  | died => exact hdie.elim
  | exhausted hlast =>
    refine .inr (.inl (le_of_eq ?_))
    rw [← hlast, abs_neg, Nat.abs_cast]
    rfl
  | spent hspent =>
    refine .inr (.inl ?_)
    rw [abs_neg]
    exact (untopD_eq hspent).le.trans (WithTop.coe_le_coe.mpr (le_abs_self _))
  | past hpast =>
    refine .inr (.inr (.inl ?_))
    rcases hpast with hon | hin
    · exact .inr hon
    · rw [(called_or_start h.begun).2] at hin
      exact .inl hin
  | timer ht hdue =>
    have htimer := timerOfCall h.begun
    have hset := htimer.set (by simp [ht])
    have hdeadline : ¬ l.NoDeadline := by
      intro hno
      rw [ht, Limits.timer, if_pos hno] at hset
      cases hset
    rw [ht, timer_of_today hnow (htimer.in_time (by simp [ht])) hdeadline] at hset
    refine .inr (.inr (.inr ⟨hdeadline, ?_, ?_⟩))
    · rwa [abs_neg, Nat.abs_cast]
    · rwa [← Option.some.inj hset]

theorem Reasoned.next (hnow : TIMEOUT_MAX < now) (h : Reasoned l now s) {e : WaitEvent ε}
    (he : ((machine l ε).restrict NeverDies).Enabled s e) : Reasoned l now (s.next l e) := by
  obtain ⟨he, hdie⟩ := he
  obtain ⟨hclock, hi⟩ := next_mono (l := l) he
  refine ⟨h.begun.tail he, h.one_le.trans hi, h.elapsed.trans hclock, fun r moment hr => ?_⟩
  rcases next_resolvedBy (l := l) he with hret | ⟨-, r', hret, hcause⟩
  · exact h.result r moment (hret.symm.trans hr)
  · rw [hret] at hr
    cases hr
    exact h.of_cause hnow he hdie hcause

theorem start_reasoned (now : ℚ) : Reasoned l now (start now : Waiting ε) :=
  ⟨.refl _, le_rfl, le_rfl, fun _ _ hr => by cases hr⟩

/-- The timer fires during the first attempt, a millisecond after the call. -/
def timerFires : List (WaitEvent ε) := [.call none, .pass 1, .timeout]

def firstAttempt (now clock : ℚ) : Waiting ε where
  clock := clock
  phase := .awaitingCondition
  i := 1
  resolved := false
  executedTimeOnStart := now
  timeout := some (now + 1)
  returned := .pending
  executor := .pending
  invocations := [1]

theorem call_of_today (hnow : TIMEOUT_MAX < now) (hlate : ¬ l.timeoutOn < now)
    (hno : ¬ l.NoDeadline) (hmax : 1 < l.maxAttempts) :
    (start now : Waiting ε).call l none = firstAttempt now now := by
  have hallowed : ((start now : Waiting ε).i : WithTop ℚ) ≤ l.maxAttempts := by
    simpa [start] using hmax.le
  rw [Waiting.call, if_neg (by exact hlate), loopHead_of_allowed (by exact hallowed)]
  change Waiting.invoke { (start now : Waiting ε) with timeout := l.timer now } none = _
  rw [timer_of_today hnow hlate hno]
  rfl

theorem timerFires_gives_up (hnow : TIMEOUT_MAX < now) (hlate : ¬ l.timeoutOn < now)
    (hno : ¬ l.NoDeadline) (hmax : 1 < l.maxAttempts) :
    ((machine l ε).restrict NeverDies).ValidTrace (start now) timerFires ∧
      ((machine l ε).runTrace (start now) timerFires).returned = .resolved (-1) (now + 1) := by
  have hcall : (machine l ε).next (start now) (.call none) = firstAttempt now now :=
    call_of_today hnow hlate hno hmax
  have hpass : (machine l ε).next (firstAttempt now now) (.pass 1) =
      firstAttempt now (now + 1) := rfl
  simp only [timerFires, Machine.ValidTrace, Machine.runTrace, Machine.restrict, hcall, hpass]
  refine ⟨⟨⟨rfl, trivial⟩, ⟨⟨nofun, zero_le_one⟩, trivial⟩, ⟨?_, trivial⟩, trivial⟩, ?_⟩
  · exact le_refl (now + 1)
  · have hresolve := resolve_of_pending
      (s := { (firstAttempt now (now + 1) : Waiting ε) with timeout := none, resolved := true }) rfl
    exact hresolve _

/-- A call of today gives up in time only where the timer that fires after a millisecond makes
no difference. -/
theorem gives_up_late_iff (opts : Opts) (now : ℚ) (hnow : TIMEOUT_MAX < now) :
    (∀ s : Waiting ε, ((machine opts.limits ε).restrict NeverDies).Execution (start now) s →
      GivesUpLate opts.limits now s) ↔ TooShortToMatter opts.limits now := by
  generalize opts.limits = l
  constructor
  · intro h
    by_contra hlong
    simp only [TooShortToMatter, not_or, not_le, not_lt] at hlong
    obtain ⟨hno, hmax, hin, hon⟩ := hlong
    have hlate : ¬ l.timeoutOn < now :=
      not_lt.mpr (le_trans (WithTop.coe_le_coe.mpr (le_add_of_nonneg_right zero_le_one)) hon)
    obtain ⟨hvalid, hr⟩ := timerFires_gives_up (ε := ε) hnow hlate hno hmax
    have hrun := Machine.execution_of_trace _ _ _ hvalid
    rw [Machine.runTrace_restrict] at hrun
    have habs : ((|(-1 : ℚ)| : ℚ) : WithTop ℚ) < l.maxAttempts := by
      rw [abs_neg, abs_one]
      exact hmax
    rcases h _ hrun (-1) (now + 1) hr (by simp) habs with hpast | hpast
    · rw [WithTop.coe_add] at hpast
      exact absurd hpast (not_lt.mpr (by gcongr; exact hin))
    · exact absurd hpast (not_lt.mpr hon)
  · intro hshort s hs r moment hr hle hlt
    have hreasoned : Reasoned l now s :=
      hs.invariant (start_reasoned now) fun u e hu he => hu.next hnow he
    rcases hreasoned.result r moment hr with hpos | hmax | hpast | ⟨hno, hone, hlater⟩
    · exact absurd hle (not_le.mpr hpos)
    · exact absurd hlt (not_lt.mpr hmax)
    · exact hpast
    · have hafter : ((now + 1 : ℚ) : WithTop ℚ) ≤ moment := WithTop.coe_le_coe.mpr hlater
      rcases hshort with hnone | hmax | hin | hon
      · exact absurd hnone hno
      · have habs : (1 : WithTop ℚ) ≤ ((|r| : ℚ) : WithTop ℚ) := WithTop.coe_le_coe.mpr hone
        exact absurd hlt (not_lt.mpr (hmax.trans habs))
      · refine .inl (lt_of_lt_of_le ?_ hafter)
        cases ht : l.timeoutIn with
        | top => exact absurd hin (by simp [ht])
        | coe q =>
          rw [ht] at hin
          have hq : q < 1 := WithTop.coe_lt_coe.mp hin
          exact WithTop.coe_lt_coe.mpr ((add_lt_add_iff_left now).mpr hq)
      · exact .inr (hon.trans_le hafter)

def oneAttempt : Opts := ⟨some (5 : ℕ), some 1, some (1000 : ℕ), none⟩

theorem gives_up_late_iff_oneAttempt :
    GivesUpLate oneAttempt.limits 1700000000000
      (((machine oneAttempt.limits Unit).restrict NeverDies).runTrace (start 1700000000000)
        timerFires) :=
  (gives_up_late_iff oneAttempt 1700000000000 (by decide +kernel)).mpr
    (.inr (.inl (by decide +kernel))) _ (Machine.execution_of_trace _ _ _ (by decide +kernel))

/-- A call with a second to go gives up after a millisecond. -/
theorem one_second_is_a_millisecond :
    ¬ ∀ (opts : Opts) (now : ℚ) (s : Waiting Unit), TIMEOUT_MAX < now →
      ((machine opts.limits Unit).restrict NeverDies).Execution (start now) s →
        GivesUpLate opts.limits now s := by
  intro h
  have hrun := Machine.execution_of_trace
    ((machine oneSecond.limits Unit).restrict NeverDies) (start 1700000000000)
    [.call none, .settle (.ok .other), .pass 1, .timeout] (by decide +kernel)
  have hlate := h oneSecond 1700000000000 _ (by decide +kernel) hrun (-1) 1700000000001
    (by decide +kernel) (by decide +kernel) (by decide +kernel)
  exact absurd hlate (by decide +kernel)

end WaitForCondition
