import Mathlib.Algebra.Order.Archimedean.Basic
import NodeSrt.Progress
import NodeSrt.WaitForConditionFailure

/-! # How long waitForCondition goes on

Attempts are a sleep apart, and none is made past a deadline. A call ends whatever the
condition does if the attempts are limited, or if sleeps take time and time is. A delay that
is too long to be a timer's is no sleep at all. -/
namespace WaitForCondition

open TransitionSystem

variable {ε : Type*} {l : Limits} {now : ℚ} {s t : Waiting ε}

/-! ## The pace of the attempts -/

/-- The earliest moment of the attempt `n` of a call made at `now`. -/
def Limits.earliest (l : Limits) (now : ℚ) (n : ℕ) : ℚ :=
  now + (n - 1) * waitDelay l.ifFalseThenSleepForMs

/-- The attempts that a call made at `now` can come to. -/
structure Limits.Allows (l : Limits) (now : ℚ) (n : ℕ) : Prop where
  pos : 1 ≤ n
  attempts : (n : WithTop ℚ) ≤ l.maxAttempts
  before : (l.earliest now n : WithTop ℚ) ≤ l.timeoutOn
  within : (l.earliest now n : WithTop ℚ) ≤ now + l.timeoutIn

theorem Limits.earliest_one : l.earliest now 1 = now := by
  simp [Limits.earliest]

theorem Limits.earliest_succ (n : ℕ) :
    l.earliest now (n + 1) = l.earliest now n + waitDelay l.ifFalseThenSleepForMs := by
  simp only [Limits.earliest, Nat.cast_add, Nat.cast_one]
  ring

/-- The result is there once the executor has come to its end, unless an invocation has thrown;
the attempts made so far were allowed, and not made too early. -/
structure Paced (l : Limits) (now : ℚ) (s : Waiting ε) : Prop where
  fresh : s.phase = .notCalled → s = start now
  began : s.executedTimeOnStart = now
  settled : s.resolved = true → s.returned ≠ .pending
  ended : s.phase = .finished → s.returned ≠ .pending ∨ ∃ e, s.executor = .rejected e
  allowed : s.Awaits → l.Allows now s.i
  awaiting : s.phase = .awaitingCondition → l.earliest now s.i ≤ s.clock
  sleeping : ∀ due, s.phase = .sleeping due → l.earliest now (s.i + 1) ≤ due
  tried : ∀ k ∈ s.invocations, l.Allows now k ∧ l.earliest now k ≤ s.clock

namespace Paced

theorem of_finished (hp : t.phase = .finished) (hb : t.executedTimeOnStart = now)
    (hs : t.resolved = true → t.returned ≠ .pending)
    (he : t.returned ≠ .pending ∨ ∃ e, t.executor = .rejected e)
    (ht : ∀ k ∈ t.invocations, l.Allows now k ∧ l.earliest now k ≤ t.clock) :
    Paced l now t where
  fresh h := by simp [hp] at h
  began := hb
  settled := hs
  ended _ := he
  allowed h := absurd hp h.2
  awaiting h := by simp [hp] at h
  sleeping due h := by simp [hp] at h
  tried := ht

theorem finish (h : Paced l now s) (r : ℚ) : Paced l now (s.finish r) := by
  obtain ⟨hclock, -, -, -, -, hb, -, hinv⟩ := resolve_frame { s with timeout := none } r
  have hsettled : (s.finish r).returned ≠ .pending := resolve_settles _ _
  refine of_finished rfl (hb.trans h.began) (fun _ => hsettled) (Or.inl hsettled) ?_
  simp only [Waiting.finish, Waiting.return_, hinv, hclock]
  exact h.tried

theorem return_ (h : Paced l now s) (hr : s.resolved = true) : Paced l now s.return_ :=
  of_finished rfl h.began h.settled (Or.inl (h.settled hr)) h.tried

theorem throw_ (h : Paced l now s) (e : ε) : Paced l now (s.throw_ e) :=
  of_finished rfl h.began h.settled (Or.inr ⟨e, rfl⟩) h.tried

theorem loopHead (hb : s.executedTimeOnStart = now)
    (hs : s.resolved = true → s.returned ≠ .pending)
    (ht : ∀ k ∈ s.invocations, l.Allows now k ∧ l.earliest now k ≤ s.clock)
    (hi : 1 ≤ s.i) (hclock : l.earliest now s.i ≤ s.clock)
    (hpast : ¬ s.PastDeadline l) (thrown : Option ε) : Paced l now (s.loopHead l thrown) := by
  unfold Waiting.loopHead
  split_ifs with hmax hres
  · exact of_finished rfl hb hs (Or.inl (hs hres)) ht
  · have hallows : l.Allows now s.i := by
      obtain ⟨hon, hin⟩ := not_or.mp hpast
      rw [hb] at hin
      have hle : (l.earliest now s.i : WithTop ℚ) ≤ s.clock := WithTop.coe_le_coe.mpr hclock
      exact ⟨hi, hmax, hle.trans (not_lt.mp hon), hle.trans (not_lt.mp hin)⟩
    have htried : ∀ k ∈ s.invocations ++ [s.i],
        l.Allows now k ∧ l.earliest now k ≤ s.clock := by
      intro k hk
      rcases List.mem_append.mp hk with hk | hk
      · exact ht k hk
      · rw [List.mem_singleton.mp hk]
        exact ⟨hallows, hclock⟩
    cases thrown with
    | some e => exact of_finished rfl hb hs (Or.inr ⟨e, rfl⟩) htried
    | none =>
      exact {
        fresh := fun hp => by simp [Waiting.invoke] at hp
        began := hb
        settled := hs
        ended := fun hp => by simp [Waiting.invoke] at hp
        allowed := fun _ => hallows
        awaiting := fun _ => hclock
        sleeping := fun due hp => by simp [Waiting.invoke] at hp
        tried := htried }
  · have hsettled := resolve_settles { s with timeout := none } (-l.maxAttempts.untopD 0)
    obtain ⟨hclock', -, -, -, -, hb', -, hinv⟩ :=
      resolve_frame { s with timeout := none } (-l.maxAttempts.untopD 0)
    refine of_finished rfl (hb'.trans hb) (fun _ => hsettled) (Or.inl hsettled) ?_
    simp only [Waiting.finish, Waiting.return_, hinv, hclock']
    exact ht

theorem call (h : Paced l now s) (hp : s.phase = .notCalled) (thrown : Option ε) :
    Paced l now (s.call l thrown) := by
  obtain rfl := h.fresh hp
  unfold Waiting.call
  split_ifs with hlate
  · exact of_finished rfl rfl (fun hr => by cases hr) (Or.inl (resolve_settles _ _))
      fun _ hk => absurd hk (List.not_mem_nil)
  · have hresolved : (start now : Waiting ε).resolved = true →
        (start now : Waiting ε).returned ≠ .pending := fun hr => by cases hr
    refine loopHead (s := { start now with timeout := l.timer now }) rfl hresolved
      (fun _ hk => absurd hk List.not_mem_nil) le_rfl l.earliest_one.le ?_ thrown
    rintro (hon | hin)
    · exact hlate hon
    · exact absurd (le_add_of_nonneg_right l.timeoutIn_pos.le) (not_le.mpr hin)

theorem settle (h : Paced l now s) (hp : s.phase = .awaitingCondition) (ret : Except ε Ret) :
    Paced l now (s.settle l ret) := by
  unfold Waiting.settle
  cases ret with
  | error e => exact h.throw_ e
  | ok ret =>
    dsimp only
    split_ifs with hres
    · exact h.return_ hres
    · exact h.finish _
    · exact h.finish _
    · exact h.finish _
    · have hawaits : s.Awaits := by simp [Waiting.Awaits, hp]
      exact {
        fresh := fun hq => by cases hq
        began := h.began
        settled := h.settled
        ended := fun hq => by cases hq
        allowed := fun _ => h.allowed hawaits
        awaiting := fun hq => by cases hq
        sleeping := fun due hq => by
          cases hq
          rw [Limits.earliest_succ]
          exact add_le_add_left (h.awaiting hp) _
        tried := h.tried }

theorem wake (h : Paced l now s) {due : ℚ} (hp : s.phase = .sleeping due)
    (hdue : due ≤ s.clock) (thrown : Option ε) : Paced l now (s.wake l thrown) := by
  unfold Waiting.wake
  split_ifs with hpast
  · exact h.finish _
  · exact loopHead (s := { s with i := s.i + 1 }) h.began h.settled h.tried
      (Nat.le_add_left 1 s.i) ((h.sleeping due hp).trans hdue) hpast thrown

theorem next (h : Paced l now s) {e : WaitEvent ε} (he : s.Enabled e) :
    Paced l now (s.next l e) := by
  cases e with
  | call thrown => exact h.call he thrown
  | pass ms =>
    have hle : s.clock ≤ s.clock + ms := le_add_of_nonneg_right he.2
    exact { h with
      fresh := fun hp => absurd hp he.1
      awaiting := fun hp => (h.awaiting hp).trans hle
      tried := fun k hk => (h.tried k hk).imp_right fun hq => hq.trans hle }
  | settle ret => exact h.settle he ret
  | wake thrown =>
    cases hp : s.phase with
    | sleeping due => exact h.wake hp (by simpa [Waiting.Enabled, hp] using he) thrown
    | _ => simp [Waiting.Enabled, hp] at he
  | timeout =>
    obtain ⟨hclock, hphase, hi, hres, -, hb, hexec, hinv⟩ :=
      resolve_frame { s with timeout := none, resolved := true } (-s.i : ℚ)
    have hsettled := resolve_settles { s with timeout := none, resolved := true } (-s.i : ℚ)
    have hcalled : s.phase ≠ .notCalled := by
      intro hp
      rw [h.fresh hp] at he
      exact he
    exact {
      fresh := fun hp => absurd (hphase.symm.trans hp) hcalled
      began := hb.trans h.began
      settled := fun _ => hsettled
      ended := fun _ => Or.inl hsettled
      allowed := fun ha => by
        rw [Waiting.next, Waiting.onTimeout, hi]
        exact h.allowed (by simpa [Waiting.Awaits, Waiting.next, Waiting.onTimeout] using ha)
      awaiting := fun hp => by
        rw [Waiting.next, Waiting.onTimeout, hi, hclock]
        exact h.awaiting (hphase.symm.trans hp)
      sleeping := fun due hp => by
        rw [Waiting.next, Waiting.onTimeout, hi]
        exact h.sleeping due (hphase.symm.trans hp)
      tried := by
        rw [Waiting.next, Waiting.onTimeout, hinv, hclock]
        exact h.tried }

end Paced

theorem start_paced (l : Limits) (now : ℚ) : Paced l now (start now : Waiting ε) := by
  constructor <;> simp [start, Waiting.Awaits]

theorem execution_paced (h : (machine l ε).Execution (start now) s) : Paced l now s :=
  h.invariant (start_paced l now) fun _ _ hp he => hp.next he

/-- An invocation with the argument `k` comes `k - 1` sleeps after the call or later, and none
comes when that is past a deadline. -/
theorem attempts_paced (h : (machine l ε).Execution (start now) s) {k : ℕ}
    (hk : k ∈ s.invocations) :
    l.Allows now k ∧ l.earliest now k ≤ s.clock :=
  (execution_paced h).tried k hk

def within25 : Opts := ⟨some (10 : ℚ), none, some (25 : ℚ), none⟩

def secondAttempt : List (WaitEvent Unit) :=
  [.call none, .settle (.ok .other), .pass 12, .wake none]

theorem attempts_paced_second :
    within25.limits.Allows 5 2 ∧ within25.limits.earliest 5 2 ≤
      ((machine within25.limits Unit).runTrace (start 5) secondAttempt).clock :=
  attempts_paced
    ((machine within25.limits Unit).execution_of_trace (start 5) secondAttempt
      (by decide +kernel))
    (show 2 ∈ _ by decide +kernel)

/-! ## What is left to do -/

/-- The steps that bring a call closer to its end. Time does where a sleep ends with it. -/
def Progresses (s : Waiting ε) : WaitEvent ε → Prop
  | .call _ | .settle _ | .wake _ => True
  | .pass ms =>
    match s.phase with
    | .sleeping due => s.clock < due ∧ due ≤ s.clock + ms
    | _ => False
  | .timeout => False

instance (s : Waiting ε) : (e : WaitEvent ε) → Decidable (Progresses s e)
  | .call _ | .settle _ | .wake _ => isTrue trivial
  | .pass ms =>
    match h : s.phase with
    | .sleeping due =>
      decidable_of_iff (s.clock < due ∧ due ≤ s.clock + ms) (by simp [Progresses, h])
    | .notCalled | .awaitingCondition | .finished => isFalse (by simp [Progresses, h])
  | .timeout => isFalse id

def Waiting.left (n : ℕ) (s : Waiting ε) : ℕ :=
  match s.phase with
  | .notCalled => 4 * n + 4
  | .awaitingCondition => 4 * (n - s.i) + 3
  | .sleeping due => 4 * (n - s.i) + if s.clock < due then 2 else 1
  | .finished => 0

/-- The executor is done, and the promise settled if nothing was thrown. -/
def Waiting.Over (s : Waiting ε) : Prop :=
  s.phase = .finished ∧ (s.returned ≠ .pending ∨ ∃ e, s.executor = .rejected e)

theorem left_of_finished {n : ℕ} (h : s.phase = .finished) : s.left n = 0 := by
  simp [Waiting.left, h]

theorem loopHead_left (n : ℕ) (s : Waiting ε) (thrown : Option ε) :
    (s.loopHead l thrown).left n ≤ 4 * (n - s.i) + 3 := by
  unfold Waiting.loopHead
  split_ifs
  · rw [left_of_finished rfl]
    exact Nat.zero_le _
  · cases thrown with
    | some e =>
      rw [Waiting.invoke, left_of_finished rfl]
      exact Nat.zero_le _
    | none => exact le_rfl
  · rw [left_of_finished rfl]
    exact Nat.zero_le _

theorem settle_left {n : ℕ} (hp : s.phase = .awaitingCondition) (ret : Except ε Ret) :
    (s.settle l ret).left n < s.left n := by
  have hleft : s.left n = 4 * (n - s.i) + 3 := by simp [Waiting.left, hp]
  have hfinished : ∀ {t : Waiting ε}, t.phase = .finished → t.left n < s.left n := fun ht => by
    rw [left_of_finished ht, hleft]
    exact Nat.succ_pos _
  unfold Waiting.settle
  cases ret with
  | error e => exact hfinished rfl
  | ok ret =>
    dsimp only
    split_ifs
    · exact hfinished rfl
    · exact hfinished rfl
    · exact hfinished rfl
    · exact hfinished rfl
    · rw [hleft]
      simp only [Waiting.left]
      split <;> omega

theorem wake_left {n : ℕ} (hn : ∀ k, l.Allows now k → k ≤ n) (hp : Paced l now s)
    {due : ℚ} (hs : s.phase = .sleeping due) (hdue : due ≤ s.clock)
    (thrown : Option ε) : (s.wake l thrown).left n < s.left n := by
  have hleft : s.left n = 4 * (n - s.i) + 1 := by
    simp [Waiting.left, hs, not_lt.mpr hdue]
  have hpaced := hp.wake hs hdue thrown
  by_cases hf : (s.wake l thrown).phase = .finished
  · rw [left_of_finished hf, hleft]
    exact Nat.succ_pos _
  unfold Waiting.wake at hpaced hf ⊢
  split_ifs at hpaced hf ⊢ with hpast
  · exact absurd rfl hf
  -- the attempt is made, and its number is bounded
  have hwent : Went { s with i := s.i + 1 } (fun _ => True)
      ({ s with i := s.i + 1 }.loopHead l thrown) := loopHead_went _ thrown fun _ => trivial
  obtain ⟨-, hcalled, -, hi⟩ := hwent.frame
  have hbound := hn _ (hpaced.allowed ⟨hcalled, hf⟩)
  have hle : ({ s with i := s.i + 1 }.loopHead l thrown).left n ≤ 4 * (n - (s.i + 1)) + 3 :=
    loopHead_left n _ thrown
  rw [hi] at hbound
  dsimp only at hbound
  omega

/-- A step either leaves what is left to do as it is or brings it down. -/
theorem left_next {n : ℕ} (hn : ∀ k, l.Allows now k → k ≤ n) (hp : Paced l now s)
    {e : WaitEvent ε} (he : s.Enabled e) :
    (s.next l e).left n ≤ s.left n ∧ (Progresses s e → (s.next l e).left n < s.left n) := by
  cases e with
  | call thrown =>
    have hlt : (s.call l thrown).left n < s.left n := by
      obtain rfl := hp.fresh he
      unfold Waiting.call
      split_ifs with hlate
      · rw [left_of_finished rfl]
        exact Nat.succ_pos _
      · refine (loopHead_left n _ thrown).trans_lt ?_
        simp only [start, Waiting.left]
        omega
    exact ⟨hlt.le, fun _ => hlt⟩
  | pass ms =>
    cases hs : s.phase with
    | sleeping due =>
      have hms : 0 ≤ ms := he.2
      have hleft : s.left n = 4 * (n - s.i) + if s.clock < due then 2 else 1 := by
        simp [Waiting.left, hs]
      have hnext : (s.next l (.pass ms)).left n =
          4 * (n - s.i) + if s.clock + ms < due then 2 else 1 := by
        simp [Waiting.next, Waiting.left, hs]
      rw [hleft, hnext]
      refine ⟨?_, fun hprog => ?_⟩
      · by_cases hdue : s.clock + ms < due
        · rw [if_pos hdue, if_pos ((le_add_of_nonneg_right hms).trans_lt hdue)]
        · rw [if_neg hdue]
          split <;> omega
      · obtain ⟨hclock, hdue⟩ : s.clock < due ∧ due ≤ s.clock + ms := by
          simpa [Progresses, hs] using hprog
        rw [if_pos hclock, if_neg (not_lt.mpr hdue)]
        omega
    | notCalled => exact absurd hs he.1
    | awaitingCondition | finished =>
      refine ⟨by simp [Waiting.next, Waiting.left, hs], fun hprog => ?_⟩
      simp [Progresses, hs] at hprog
  | settle ret =>
    have hlt := settle_left (l := l) (n := n) he ret
    exact ⟨hlt.le, fun _ => hlt⟩
  | wake thrown =>
    cases hs : s.phase with
    | sleeping due =>
      have hdue : due ≤ s.clock := by simpa [Waiting.Enabled, hs] using he
      have hlt := wake_left hn hp hs hdue thrown
      exact ⟨hlt.le, fun _ => hlt⟩
    | _ => simp [Waiting.Enabled, hs] at he
  | timeout =>
    refine ⟨?_, False.elim⟩
    simp [Waiting.next, Waiting.onTimeout, Waiting.left]

theorem decreasing {n : ℕ} (hn : ∀ k, l.Allows now k → k ≤ n) :
    (machine l ε).Decreasing Progresses (Paced l now) (Waiting.left n) where
  kept _ _ h he := h.next he
  le _ _ h he := (left_next hn h he).1
  lt _ _ h he := (left_next hn h he).2

theorem over_of_exhausted (h : Paced l now s) (hex : (machine l ε).Exhausted Progresses s) :
    s.Over := by
  cases hs : s.phase with
  | notCalled => exact absurd trivial (hex (.call none) hs)
  | awaitingCondition => exact absurd trivial (hex (.settle (.ok .other)) hs)
  | sleeping due =>
    by_cases hdue : s.clock < due
    · have hpass : s.Enabled (.pass (due - s.clock)) := ⟨by simp [hs], by linarith⟩
      exact absurd (by simp [Progresses, hs, hdue]) (hex (.pass (due - s.clock)) hpass)
    · have hwake : s.Enabled (.wake none) := by
        simpa [Waiting.Enabled, hs] using not_lt.mp hdue
      exact absurd trivial (hex (.wake none) hwake)
  | finished => exact ⟨hs, h.ended hs⟩

/-! ## Calls that end -/

/-- The limits make no more than boundedly many attempts possible. -/
def Limits.Bounding (l : Limits) (now : ℚ) : Prop :=
  l.timeoutOn < now ∨ l.maxAttempts ≠ ⊤ ∨
    ¬ l.NoDeadline ∧ 0 < waitDelay l.ifFalseThenSleepForMs

theorem exists_bound_of_moment (now : ℚ) (hd : 0 < waitDelay l.ifFalseThenSleepForMs)
    (moment : ℚ) : ∃ n : ℕ, ∀ k, l.earliest now k ≤ moment → k ≤ n := by
  obtain ⟨n, hn⟩ := exists_nat_ge ((moment - now) / waitDelay l.ifFalseThenSleepForMs + 1)
  refine ⟨n, fun k hk => ?_⟩
  have hroom : (k : ℚ) - 1 ≤ (moment - now) / waitDelay l.ifFalseThenSleepForMs := by
    rw [le_div_iff₀ hd]
    unfold Limits.earliest at hk
    linarith
  have hcast : (k : ℚ) ≤ n := by linarith
  exact Nat.cast_le.mp hcast

theorem Limits.Bounding.exists_bound (h : l.Bounding now) :
    ∃ n : ℕ, ∀ k, l.Allows now k → k ≤ n := by
  rcases h with hlate | hmax | ⟨hdeadline, hd⟩
  · refine ⟨0, fun k hk => absurd hk.before (not_le.mpr (hlate.trans_le ?_))⟩
    have hpos : (1 : ℚ) ≤ k := by exact_mod_cast hk.pos
    have hdelay := waitDelay_nonneg l.ifFalseThenSleepForMs
    apply WithTop.coe_le_coe.mpr
    unfold Limits.earliest
    nlinarith
  · obtain ⟨q, hq⟩ := WithTop.ne_top_iff_exists.mp hmax
    obtain ⟨n, hn⟩ := exists_nat_ge q
    refine ⟨n, fun k hk => ?_⟩
    have hle := hk.attempts
    rw [← hq] at hle
    have hcast : (k : ℚ) ≤ q := by exact_mod_cast hle
    exact_mod_cast hcast.trans hn
  · by_cases hon : l.timeoutOn = ⊤
    · have hin : l.timeoutIn ≠ ⊤ := fun hin => hdeadline ⟨hin, hon⟩
      obtain ⟨q, hq⟩ := WithTop.ne_top_iff_exists.mp hin
      obtain ⟨n, hn⟩ := exists_bound_of_moment now hd (now + q)
      refine ⟨n, fun k hk => hn k ?_⟩
      have hle := hk.within
      rw [← hq] at hle
      exact_mod_cast hle
    · obtain ⟨q, hq⟩ := WithTop.ne_top_iff_exists.mp hon
      obtain ⟨n, hn⟩ := exists_bound_of_moment now hd q
      refine ⟨n, fun k hk => hn k ?_⟩
      have hle := hk.before
      rw [← hq] at hle
      exact_mod_cast hle

/-! ## Calls that need not end -/

/-- The condition is false `k` times. -/
def spin (l : Limits) : ℕ → List (WaitEvent ε)
  | 0 => []
  | k + 1 =>
    .settle (.ok .other) :: .pass (waitDelay l.ifFalseThenSleepForMs) :: .wake none :: spin l k

structure Spins (l : Limits) (s : Waiting ε) : Prop where
  phase : s.phase = .awaitingCondition
  resolved : s.resolved = false
  within : ¬ s.PastDeadline l

/-- A sleep later the next attempt is under way. -/
def Waiting.again (l : Limits) (s : Waiting ε) : Waiting ε :=
  { s with
    clock := s.clock + waitDelay l.ifFalseThenSleepForMs
    phase := .awaitingCondition
    i := s.i + 1
    invocations := s.invocations ++ [s.i + 1] }

theorem pastDeadline_of_idle (hidle : l.NoDeadline ∨ waitDelay l.ifFalseThenSleepForMs = 0)
    (h : ¬ s.PastDeadline l) (hb : t.executedTimeOnStart = s.executedTimeOnStart)
    (hc : t.clock = s.clock + waitDelay l.ifFalseThenSleepForMs) : ¬ t.PastDeadline l := by
  rcases hidle with hno | hd
  · exact not_pastDeadline hno t
  · simpa [Waiting.PastDeadline, hb, hc, hd] using h

theorem Spins.again (hidle : l.NoDeadline ∨ waitDelay l.ifFalseThenSleepForMs = 0)
    (h : Spins l s) : Spins l (s.again l) :=
  ⟨rfl, h.resolved, pastDeadline_of_idle hidle h.within rfl rfl⟩

/-- With no limit on the attempts a condition that is false is tried again. -/
theorem Spins.runs (hmax : l.maxAttempts = ⊤)
    (hidle : l.NoDeadline ∨ waitDelay l.ifFalseThenSleepForMs = 0) (h : Spins l s) :
    s.settle l (.ok .other) =
        { s with phase := .sleeping (s.clock + waitDelay l.ifFalseThenSleepForMs) } ∧
      { s with
        phase := .sleeping (s.clock + waitDelay l.ifFalseThenSleepForMs)
        clock := s.clock + waitDelay l.ifFalseThenSleepForMs }.wake l none = s.again l := by
  have hlt : (s.i : WithTop ℚ) ≠ l.maxAttempts := by
    rw [hmax]
    exact WithTop.coe_ne_top
  constructor
  · simp [Waiting.settle, h.resolved, hlt, h.within]
  · have hpast : ¬ { s with
        phase := .sleeping (s.clock + waitDelay l.ifFalseThenSleepForMs)
        clock := s.clock + waitDelay l.ifFalseThenSleepForMs }.PastDeadline l :=
      pastDeadline_of_idle hidle h.within rfl rfl
    rw [Waiting.wake, if_neg hpast, loopHead_of_allowed (by rw [hmax]; exact le_top)]
    simp [h.resolved, Waiting.invoke, Waiting.again]

theorem Spins.goes_on (hmax : l.maxAttempts = ⊤)
    (hidle : l.NoDeadline ∨ waitDelay l.ifFalseThenSleepForMs = 0) (k : ℕ) (h : Spins l s) :
    (machine l ε).ValidTrace s (spin l k) ∧
      k ≤ (machine l ε).progress Progresses s (spin l k) := by
  induction k generalizing s with
  | zero => exact ⟨trivial, Nat.zero_le _⟩
  | succ k ih =>
    obtain ⟨hsettle, hwake⟩ := h.runs hmax hidle
    obtain ⟨hvalid, hmade⟩ := ih (h.again hidle)
    constructor
    · have hpass : Waiting.Enabled
          { s with phase := .sleeping (s.clock + waitDelay l.ifFalseThenSleepForMs) }
          (.pass (waitDelay l.ifFalseThenSleepForMs) : WaitEvent ε) :=
        ⟨by simp, waitDelay_nonneg _⟩
      have hdue : Waiting.Enabled
          { s with
            phase := .sleeping (s.clock + waitDelay l.ifFalseThenSleepForMs)
            clock := s.clock + waitDelay l.ifFalseThenSleepForMs }
          (.wake none : WaitEvent ε) := by simp [Waiting.Enabled]
      exact .cons h.phase hsettle (.cons hpass rfl (.cons hdue hwake hvalid))
    · calc k + 1 ≤ (machine l ε).progress Progresses (s.again l) (spin l k) + 1 :=
            Nat.succ_le_succ hmade
        _ = (machine l ε).progress Progresses _ (.wake none :: spin l k) :=
            (Machine.progress_cons trivial hwake).symm
        _ ≤ (machine l ε).progress Progresses _ (.pass _ :: .wake none :: spin l k) :=
            Machine.progress_le_cons rfl
        _ ≤ (machine l ε).progress Progresses s (spin l (k + 1)) :=
            Machine.progress_le_cons hsettle

theorem call_spins (hon : ¬ l.timeoutOn < now) (hmax : l.maxAttempts = ⊤) :
    Spins l ((start now : Waiting ε).call l none) := by
  have hcall : (start now : Waiting ε).call l none =
      { start now with timeout := l.timer now }.invoke none := by
    rw [Waiting.call, if_neg (by exact hon), loopHead_of_allowed (by rw [hmax]; exact le_top)]
    rfl
  rw [hcall]
  refine ⟨rfl, rfl, ?_⟩
  rintro (hlate | hlate)
  · exact hon hlate
  · exact absurd (le_add_of_nonneg_right l.timeoutIn_pos.le) (not_le.mpr hlate)

/-- A call ends, whatever the condition does, just if its limits bound the attempts: with no
limit on them it is a deadline and a sleep that takes time that do. -/
theorem call_ends_iff (l : Limits) (now : ℚ) :
    (machine l ε).Inevitable Progresses Waiting.Over (start now) ↔ l.Bounding now := by
  constructor
  · intro h
    by_contra hno
    obtain ⟨hon, hattempts, hidle⟩ : ¬ l.timeoutOn < now ∧ l.maxAttempts = ⊤ ∧
        (l.NoDeadline ∨ waitDelay l.ifFalseThenSleepForMs = 0) := by
      simp only [Limits.Bounding, not_or, not_and, not_not, not_lt, ne_eq] at hno
      refine ⟨not_lt.mpr hno.1, hno.2.1, or_iff_not_imp_left.mpr fun hd => ?_⟩
      exact le_antisymm (hno.2.2 hd) (waitDelay_nonneg _)
    obtain ⟨n, hn⟩ := h.bounded
    obtain ⟨hvalid, hmade⟩ :=
      (call_spins (ε := ε) hon hattempts).goes_on hattempts hidle (n + 1)
    have hle := hn (.call none :: spin l (n + 1)) ⟨rfl, hvalid⟩
    have hcalled : Progresses (start now : Waiting ε) (.call none) := trivial
    rw [Machine.progress_cons (M := machine l ε) hcalled rfl] at hle
    exact absurd (hmade.trans (Nat.le_of_succ_le hle)) (Nat.not_succ_le_self n)
  · intro h
    obtain ⟨n, hn⟩ := h.exists_bound
    exact (decreasing hn).inevitable (start_paced l now) fun _ ht hex =>
      over_of_exhausted ht hex

end WaitForCondition
