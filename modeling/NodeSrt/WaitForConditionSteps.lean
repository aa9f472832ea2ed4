import NodeSrt.WaitForCondition

/-! # The steps of waitForCondition

What a piece of the executor between two awaits can do is said once. What holds of the clock, of
the promise and of the timer follows from it. -/
namespace WaitForCondition

open TransitionSystem

variable {ε : Type*} {l : Limits} {s t : Waiting ε}

/-! ## Causes -/

variable (l) in
inductive Waiting.Cause (s : Waiting ε) : WaitEvent ε → ℚ → Prop where
  | late {thrown} : l.timeoutOn < s.clock → s.Cause (.call thrown) 0
  | success : s.Cause (.settle (.ok .true)) s.i
  | died : s.Cause (.settle (.ok .CMDFLOW_DIE)) (-s.i)
  | exhausted {ret} : (s.i : WithTop ℚ) = l.maxAttempts → s.Cause (.settle (.ok ret)) (-s.i)
  | spent {e} {n : ℕ} : l.maxAttempts < n → s.Cause e (-l.maxAttempts.untopD 0)
  | past {e} : s.PastDeadline l → s.Cause e (-s.i)
  | timer {due} : s.timeout = some due → due ≤ s.clock → s.Cause .timeout (-s.i)

/-- What the executor does between two awaits: it comes to an end with or without a result, or
it goes on. -/
inductive Went (s : Waiting ε) (cause : ℚ → Prop) : Waiting ε → Prop where
  | returns : Went s cause s.return_
  | throws (e : ε) : Went s cause (s.throw_ e)
  | invokes (thrown : Option ε) : Went s cause (s.invoke thrown)
  | sleeps (due : ℚ) : Went s cause { s with phase := .sleeping due }
  | finishes {r : ℚ} : cause r → Went s cause (s.finish r)

theorem loopHead_went {cause : ℚ → Prop} (s : Waiting ε) (thrown : Option ε)
    (h : l.maxAttempts < s.i → cause (-l.maxAttempts.untopD 0)) :
    Went s cause (s.loopHead l thrown) := by
  unfold Waiting.loopHead
  split_ifs with hle
  · exact .returns
  · exact .invokes thrown
  · exact .finishes (h (not_le.mp hle))

theorem settle_went (s : Waiting ε) (ret : Except ε Ret) :
    Went s (s.Cause l (.settle ret)) (s.settle l ret) := by
  unfold Waiting.settle
  cases ret with
  | error e => exact .throws e
  | ok ret =>
    dsimp only
    split_ifs with hres htrue hlast hpast
    · exact .returns
    · exact .finishes (htrue ▸ .success)
    · rcases hlast with rfl | hlast
      · exact .finishes .died
      · exact .finishes (.exhausted hlast)
    · exact .finishes (.past hpast)
    · exact .sleeps _

theorem wake_went (s : Waiting ε) (thrown : Option ε) :
    ∃ n, s.i ≤ n ∧ Went { s with i := n } (s.Cause l (.wake thrown)) (s.wake l thrown) := by
  unfold Waiting.wake
  split_ifs with hpast
  · exact ⟨s.i, le_rfl, .finishes (.past hpast)⟩
  · exact ⟨s.i + 1, Nat.le_succ _, loopHead_went { s with i := s.i + 1 } thrown .spent⟩

theorem call_went (s : Waiting ε) (thrown : Option ε) (hlate : ¬ l.timeoutOn < s.clock) :
    Went { s with executedTimeOnStart := s.clock, timeout := l.timer s.clock }
      (s.Cause l (.call thrown)) (s.call l thrown) := by
  rw [Waiting.call, if_neg hlate]
  exact loopHead_went _ thrown .spent

/-! ## Time -/

theorem Went.frame {cause : ℚ → Prop} (h : Went s cause t) :
    t.clock = s.clock ∧ t.phase ≠ .notCalled ∧ t.executedTimeOnStart = s.executedTimeOnStart ∧
      t.i = s.i := by
  cases h with
  | returns => simp [Waiting.return_]
  | throws e => simp [Waiting.throw_]
  | invokes thrown => cases thrown <;> simp [Waiting.invoke, Waiting.throw_]
  | sleeps due => simp
  | finishes hr => simp [Waiting.finish, Waiting.return_]

theorem call_frame (s : Waiting ε) (thrown : Option ε) :
    (s.call l thrown).clock = s.clock ∧ (s.call l thrown).phase ≠ .notCalled ∧
      (s.call l thrown).executedTimeOnStart = s.clock ∧ (s.call l thrown).i = s.i := by
  by_cases hlate : l.timeoutOn < s.clock
  · rw [Waiting.call, if_pos hlate]
    simp [Waiting.return_]
  · exact (call_went s thrown hlate).frame

theorem called_or_start {now : ℚ} (h : (machine l ε).Execution (start now) s) :
    (s.phase = .notCalled → s = start now) ∧ s.executedTimeOnStart = now := by
  apply h.invariant ⟨fun _ => rfl, rfl⟩
  rintro u e ⟨hfresh, hstart⟩ he
  cases e with
  | call thrown =>
    obtain ⟨-, hp, ht, -⟩ := call_frame (l := l) u thrown
    refine ⟨fun h => absurd h hp, ht.trans ?_⟩
    rw [hfresh he]
    rfl
  | pass ms => exact ⟨fun hp => absurd hp he.1, hstart⟩
  | settle ret =>
    obtain ⟨-, hp, ht, -⟩ := (settle_went (l := l) u ret).frame
    exact ⟨fun h => absurd h hp, ht.trans hstart⟩
  | wake thrown =>
    obtain ⟨n, -, hwent⟩ := wake_went (l := l) u thrown
    obtain ⟨-, hp, ht, -⟩ := hwent.frame
    exact ⟨fun h => absurd h hp, ht.trans hstart⟩
  | timeout =>
    obtain ⟨-, hp, -, -, -, ht, -⟩ :=
      resolve_frame { u with timeout := none, resolved := true } (-u.i : ℚ)
    refine ⟨fun h => ?_, ht.trans hstart⟩
    rw [hfresh (hp.symm.trans h)] at he
    exact he.elim

theorem next_mono {e : WaitEvent ε} (he : s.Enabled e) :
    s.clock ≤ (s.next l e).clock ∧ s.i ≤ (s.next l e).i := by
  cases e with
  | call thrown =>
    obtain ⟨hclock, -, -, hi⟩ := call_frame (l := l) s thrown
    exact ⟨hclock.ge, hi.ge⟩
  | pass ms => exact ⟨le_add_of_nonneg_right he.2, le_rfl⟩
  | settle ret =>
    obtain ⟨hclock, -, -, hi⟩ := (settle_went (l := l) s ret).frame
    exact ⟨hclock.ge, hi.ge⟩
  | wake thrown =>
    obtain ⟨n, hn, hwent⟩ := wake_went (l := l) s thrown
    obtain ⟨hclock, -, -, hi⟩ := hwent.frame
    exact ⟨hclock.ge, hn.trans hi.ge⟩
  | timeout => simp [Waiting.next, Waiting.onTimeout]

/-! ## The promise -/

/-- A step leaves the promise alone or resolves it for one of these causes. -/
def Waiting.ResolvedBy (s t : Waiting ε) (cause : ℚ → Prop) : Prop :=
  t.returned = s.returned ∨
    s.returned = .pending ∧ ∃ r, t.returned = .resolved r s.clock ∧ cause r

theorem resolve_resolvedBy (s : Waiting ε) {cause : ℚ → Prop} {r : ℚ} (h : cause r) :
    s.ResolvedBy (s.resolve r) cause := by
  rcases resolve_returned s r with ⟨hpend, he⟩ | ⟨-, he⟩
  · exact Or.inr ⟨hpend, r, he, h⟩
  · exact Or.inl he

theorem Went.resolvedBy {cause : ℚ → Prop} (h : Went s cause t) : s.ResolvedBy t cause := by
  cases h with
  | returns | throws e | sleeps due => exact Or.inl rfl
  | invokes thrown => cases thrown <;> exact Or.inl rfl
  | finishes hr => exact resolve_resolvedBy { s with timeout := none } hr

theorem next_resolvedBy {e : WaitEvent ε} (he : s.Enabled e) :
    s.ResolvedBy (s.next l e) (s.Cause l e) := by
  cases e with
  | call thrown =>
    by_cases hlate : l.timeoutOn < s.clock
    · simp only [Waiting.next, Waiting.call, if_pos hlate]
      have hcause : s.Cause l (.call thrown) 0 := .late hlate
      exact resolve_resolvedBy { s with executedTimeOnStart := s.clock } hcause
    · exact (call_went s thrown hlate).resolvedBy
  | pass ms => exact Or.inl rfl
  | settle ret => exact (settle_went s ret).resolvedBy
  | wake thrown =>
    obtain ⟨n, -, hwent⟩ := wake_went (l := l) s thrown
    exact hwent.resolvedBy
  | timeout =>
    cases ht : s.timeout with
    | none => simp [Waiting.Enabled, ht] at he
    | some due =>
      have hdue : due ≤ s.clock := by simpa [Waiting.Enabled, ht] using he
      have hcause : s.Cause l .timeout (-s.i) := .timer ht hdue
      exact resolve_resolvedBy { s with timeout := none, resolved := true } hcause

/-! ## The timer of the call -/

/-- The timer is left alone, or it is gone and the promise has settled. -/
def Waiting.TimerKept (s t : Waiting ε) : Prop :=
  t.timeout = s.timeout ∨ t.timeout = none ∧ t.returned ≠ .pending

theorem resolve_settles (s : Waiting ε) (r : ℚ) : (s.resolve r).returned ≠ .pending := by
  rcases resolve_returned s r with ⟨-, he⟩ | ⟨hne, he⟩
  · simp [he]
  · rwa [he]

theorem Went.timerKept {cause : ℚ → Prop} (h : Went s cause t) : s.TimerKept t := by
  cases h with
  | returns | throws e | sleeps due => exact Or.inl rfl
  | invokes thrown => cases thrown <;> exact Or.inl rfl
  | finishes hr =>
    exact Or.inr ⟨(resolve_frame { s with timeout := none } _).2.2.2.2.1, resolve_settles _ _⟩

/-- Only the call sets the timer. -/
theorem next_timerKept {e : WaitEvent ε} (hp : s.phase ≠ .notCalled) (he : s.Enabled e) :
    s.TimerKept (s.next l e) := by
  cases e with
  | call thrown => exact absurd he hp
  | pass ms => exact Or.inl rfl
  | settle ret => exact (settle_went (l := l) s ret).timerKept
  | wake thrown =>
    obtain ⟨n, -, hwent⟩ := wake_went (l := l) s thrown
    exact hwent.timerKept
  | timeout =>
    exact Or.inr ⟨(resolve_frame { s with timeout := none, resolved := true } _).2.2.2.2.1,
      resolve_settles _ _⟩

/-- An armed timer is the one the call has set, and nothing but a result takes it away. -/
structure Waiting.TimerOfCall (l : Limits) (now : ℚ) (s : Waiting ε) : Prop where
  in_time : s.timeout ≠ none → ¬ l.timeoutOn < now
  set : s.timeout ≠ none → s.timeout = l.timer now
  kept : s.phase ≠ .notCalled → s.returned = .pending → s.timeout = l.timer now

theorem Waiting.TimerOfCall.of_kept {now : ℚ} (h : s.TimerOfCall l now)
    (hp : s.phase ≠ .notCalled) (hkept : s.TimerKept t)
    (hr : s.returned ≠ .pending → t.returned ≠ .pending) : t.TimerOfCall l now := by
  rcases hkept with he | ⟨hnone, hsettled⟩
  · constructor
    · rw [he]
      exact h.in_time
    · rw [he]
      exact h.set
    · intro _ hpend
      rw [he]
      exact h.kept hp (by_contra fun hne => hr hne hpend)
  · exact ⟨fun hne => absurd hnone hne, fun hne => absurd hnone hne,
      fun _ hpend => absurd hpend hsettled⟩

theorem call_timerOfCall (now : ℚ) (thrown : Option ε) :
    ((start now).call l thrown).TimerOfCall l now := by
  by_cases hlate : l.timeoutOn < now
  · rw [Waiting.call, if_pos (by exact hlate)]
    exact ⟨fun hne => absurd rfl hne, fun hne => absurd rfl hne, fun _ hpend => by cases hpend⟩
  · have hset : Waiting.TimerOfCall l now
        { (start now : Waiting ε) with timeout := l.timer now, phase := .awaitingCondition } :=
      ⟨fun _ => hlate, fun _ => rfl, fun _ _ => rfl⟩
    exact hset.of_kept (by simp) (call_went (start now) thrown hlate).timerKept
      fun hne => absurd rfl hne

theorem timerOfCall {now : ℚ} (h : (machine l ε).Execution (start now) s) :
    s.TimerOfCall l now := by
  suffices hs : (machine l ε).Execution (start now) s ∧ s.TimerOfCall l now from hs.2
  apply h.invariant (I := fun u => (machine l ε).Execution (start now) u ∧ u.TimerOfCall l now)
  · exact ⟨.refl _, fun hne => absurd rfl hne, fun hne => absurd rfl hne,
      fun hp => absurd rfl hp⟩
  rintro u e ⟨hu, htimer⟩ he
  refine ⟨hu.tail he, ?_⟩
  by_cases hp : u.phase = .notCalled
  · obtain rfl := (called_or_start hu).1 hp
    cases e with
    | call thrown => exact call_timerOfCall now thrown
    | pass ms => exact absurd hp he.1
    | settle ret => exact absurd he (by simp [machine, Waiting.Enabled, start])
    | wake thrown => exact he.elim
    | timeout => exact he.elim
  · apply htimer.of_kept hp (next_timerKept hp he)
    intro hne
    rcases next_resolvedBy (l := l) he with hret | ⟨hpend, -⟩
    · exact fun hpend => hne (hret.symm.trans hpend)
    · exact absurd hpend hne

end WaitForCondition
