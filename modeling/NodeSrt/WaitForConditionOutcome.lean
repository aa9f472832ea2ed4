import Mathlib.Data.Nat.Cast.Order.Ring
import NodeSrt.WaitForConditionSteps

/-! # The outcome of waitForCondition

Six places can decide the result, and the flag and the counter they share keep the attempts
counted: an invocation only happens while nothing has been decided. -/
namespace WaitForCondition

open TransitionSystem

variable {ε : Type*} (l : Limits) (condition : ℕ → Ret)

/-- The condition never throws, and its invocation `k` yields `condition k`. -/
def Yields (s : Waiting ε) : WaitEvent ε → Prop
  | .call thrown | .wake thrown => thrown.isNone = true
  | .settle ret => ret.toOption = some (condition s.i)
  | .pass _ | .timeout => True

instance (s : Waiting ε) : (e : WaitEvent ε) → Decidable (Yields condition s e)
  | .call _ | .wake _ | .settle _ => inferInstanceAs (Decidable (_ = _))
  | .pass _ | .timeout => isTrue trivial

def yieldingMachine (ε : Type*) : Machine (Waiting ε) (WaitEvent ε) :=
  (machine l ε).restrict (Yields condition)

instance (s : Waiting ε) (e : WaitEvent ε) :
    Decidable ((yieldingMachine l condition ε).Enabled s e) :=
  inferInstanceAs (Decidable (s.Enabled e ∧ Yields condition s e))

structure Tried (n : ℕ) : Prop where
  pos : 1 ≤ n
  allowed : (n : WithTop ℚ) ≤ l.maxAttempts
  others : ∀ j, 1 ≤ j → j < n → condition j = .other

/-- A result and how many attempts it took. -/
inductive Decided (begun : ℚ) : ℕ → ℚ → Prop where
  | late : l.timeoutOn < begun → Decided begun 0 0
  | success {n : ℕ} : Tried l condition n → condition n = .true → Decided begun n n
  | died {n : ℕ} : Tried l condition n → condition n = .CMDFLOW_DIE → Decided begun n (-n)
  | exhausted {n : ℕ} : Tried l condition n → (n : WithTop ℚ) = l.maxAttempts →
      condition n = .other → Decided begun n (-n)
  | timedOut {n : ℕ} : Tried l condition n → ¬ l.NoDeadline → Decided begun n (-n)

section

variable {l condition} {begun r : ℚ} {n : ℕ}

theorem Decided.abs_eq (h : Decided l condition begun n r) : |r| = n := by
  cases h <;> simp

theorem Decided.le_maxAttempts (h : Decided l condition begun n r) :
    (n : WithTop ℚ) ≤ l.maxAttempts := by
  cases h with
  | late => simpa using l.maxAttempts_pos.le
  | success ht _ | died ht _ | exhausted ht _ _ | timedOut ht _ => exact ht.allowed

theorem Decided.of_pos (h : Decided l condition begun n r) (hr : 0 < r) :
    condition n = .true ∧ ∀ j, 1 ≤ j → j < n → condition j = .other := by
  cases h with
  | late => exact absurd hr (lt_irrefl 0)
  | success ht htrue => exact ⟨htrue, ht.others⟩
  | died ht _ | exhausted ht _ _ | timedOut ht _ =>
    have hn : (0 : ℚ) ≤ n := Nat.cast_nonneg n
    exact absurd hr (by simp [hn])

theorem Decided.of_zero (h : Decided l condition begun n r) (hr : r = 0) :
    l.timeoutOn < begun := by
  have hn : n = 0 := by simpa [hr, eq_comm] using h.abs_eq
  cases h with
  | late hlate => exact hlate
  | success ht _ | died ht _ | exhausted ht _ _ | timedOut ht _ =>
    exact absurd ht.pos (by simp [hn])

theorem Decided.of_noDeadline (h : Decided l condition begun n r) (hno : l.NoDeadline) :
    1 ≤ n ∧ (∀ j, 1 ≤ j → j < n → condition j = .other) ∧
      (condition n = .true ∧ r = n ∨ condition n = .CMDFLOW_DIE ∧ r = -n ∨
        condition n = .other ∧ (n : WithTop ℚ) = l.maxAttempts ∧ r = -n) := by
  cases h with
  | late hlate => exact absurd hlate (by simp [hno.2])
  | success ht htrue => exact ⟨ht.pos, ht.others, .inl ⟨htrue, rfl⟩⟩
  | died ht hdie => exact ⟨ht.pos, ht.others, .inr (.inl ⟨hdie, rfl⟩)⟩
  | exhausted ht hlast hother => exact ⟨ht.pos, ht.others, .inr (.inr ⟨hother, hlast, rfl⟩)⟩
  | timedOut _ hdeadline => exact absurd hno hdeadline

end

/-- Every attempt so far has its invocation, at an await the flag is set just if there is a
result, and a result is justified by the attempts made. -/
structure Attempting (s : Waiting ε) : Prop where
  fresh : s.phase = .notCalled → s.i = 1 ∧ s.invocations = [] ∧ s.returned = .pending ∧
    s.resolved = false
  invocations : s.invocations = List.range' 1 s.invocations.length
  awaits : s.Awaits → s.invocations.length = s.i ∧ Tried l condition s.i ∧
    (s.resolved = true ↔ s.returned ≠ .pending)
  sleeping : ∀ due, s.phase = .sleeping due →
    condition s.i = .other ∧ (s.i : WithTop ℚ) ≠ l.maxAttempts
  timer : s.timeout ≠ none → ¬ l.NoDeadline ∧ s.Awaits ∧ s.resolved = false
  finished : s.phase = .finished → s.returned ≠ .pending
  result : ∀ r moment, s.returned = .resolved r moment →
    Decided l condition s.executedTimeOnStart s.invocations.length r

theorem start_attempting (now : ℚ) : Attempting l condition (start now : Waiting ε) := by
  constructor <;> simp [start, Waiting.Awaits]

variable {l condition} {s t : Waiting ε}

/-- The attempts are counted in whole numbers. -/
def Limits.Whole (l : Limits) : Prop := l.maxAttempts = ⊤ ∨ ∃ n : ℕ, l.maxAttempts = n

theorem Limits.Whole.succ_le (h : l.Whole) {i : ℕ} (hle : (i : WithTop ℚ) ≤ l.maxAttempts)
    (hne : (i : WithTop ℚ) ≠ l.maxAttempts) : ((i + 1 : ℕ) : WithTop ℚ) ≤ l.maxAttempts := by
  rcases h with htop | ⟨n, hn⟩
  · rw [htop]
    exact le_top
  · rw [hn] at hle hne ⊢
    have hlt : i < n := lt_of_le_of_ne (Nat.cast_le.mp hle) fun he => hne (by rw [he])
    exact Nat.cast_le.mpr hlt

theorem Tried.succ {i : ℕ} (h : Tried l condition i) (hw : l.Whole)
    (hother : condition i = .other) (hne : (i : WithTop ℚ) ≠ l.maxAttempts) :
    Tried l condition (i + 1) := by
  refine ⟨Nat.le_add_left _ _, hw.succ_le h.allowed hne, fun j hj hlt => ?_⟩
  rcases Nat.lt_succ_iff_lt_or_eq.mp hlt with hlt | rfl
  · exact h.others j hj hlt
  · exact hother

theorem PastDeadline.deadline (h : s.PastDeadline l) : ¬ l.NoDeadline := by
  rintro ⟨hin, hon⟩
  rcases h with h | h
  · exact absurd h (by simp [hon])
  · exact absurd h (by simp [hin])

namespace Attempting

theorem finish (h : Attempting l condition s) {r : ℚ}
    (hr : s.returned = .pending →
      Decided l condition s.executedTimeOnStart s.invocations.length r) :
    Attempting l condition (s.finish r) := by
  have hf := resolve_frame { s with timeout := none } r
  obtain ⟨-, -, hi, hres, -, hstart, -, hinv⟩ := hf
  have hcases := resolve_returned { s with timeout := none } r
  constructor
  · intro hp
    cases hp
  · simpa [Waiting.finish, Waiting.return_, hinv] using h.invocations
  · intro ha
    exact absurd rfl ha.2
  · intro due hp
    cases hp
  · intro ht
    simp [Waiting.finish, Waiting.return_] at ht
  · intro _
    rcases hcases with ⟨-, he⟩ | ⟨hne, he⟩
    · simp [Waiting.finish, Waiting.return_, he]
    · simpa [Waiting.finish, Waiting.return_, he] using hne
  · intro r' moment hr'
    simp only [Waiting.finish, Waiting.return_, hinv, hstart] at hr' ⊢
    rcases hcases with ⟨hpend, he⟩ | ⟨-, he⟩
    · rw [he] at hr'
      cases hr'
      exact hr hpend
    · rw [he] at hr'
      exact h.result r' moment hr'

theorem return_ (h : Attempting l condition s) (hr : s.returned ≠ .pending)
    (hflag : s.resolved = true) (i : ℕ) : Attempting l condition { s.return_ with i := i } := by
  have ht : s.timeout = none := by
    by_contra hne
    simp [(h.timer hne).2.2] at hflag
  constructor
  · intro hp
    cases hp
  · exact h.invocations
  · intro ha
    exact absurd rfl ha.2
  · intro due hp
    cases hp
  · intro hne
    exact absurd ht hne
  · intro _
    exact hr
  · exact h.result

theorem invoke (hinv : s.invocations = List.range' 1 s.invocations.length)
    (hi : s.invocations.length + 1 = s.i) (htried : Tried l condition s.i)
    (htimer : s.timeout ≠ none → ¬ l.NoDeadline) (hpend : s.returned = .pending)
    (hres : s.resolved = false) : Attempting l condition (s.invoke none) := by
  constructor
  · intro hp
    cases hp
  · simp only [Waiting.invoke, List.length_append, List.length_singleton]
    rw [List.range'_concat, ← hinv, ← hi]
    simp [Nat.add_comm]
  · intro _
    exact ⟨by simpa [Waiting.invoke] using hi, htried, by simp [Waiting.invoke, hres, hpend]⟩
  · intro due hp
    cases hp
  · intro hne
    exact ⟨htimer hne, ⟨by simp [Waiting.invoke], by simp [Waiting.invoke]⟩, hres⟩
  · intro hp
    cases hp
  · intro r moment hr
    rw [show (s.invoke none).returned = s.returned from rfl, hpend] at hr
    cases hr

theorem call (hw : l.Whole) (h : Attempting l condition s) (hp : s.phase = .notCalled) :
    Attempting l condition (s.call l none) := by
  obtain ⟨hi, hinv, hpend, hres⟩ := h.fresh hp
  have htried : Tried l condition 1 := by
    refine ⟨le_rfl, ?_, fun j hj hlt => absurd hj (not_le.mpr hlt)⟩
    exact hw.succ_le (i := 0) (by simpa using l.maxAttempts_pos.le)
      (by simpa using l.maxAttempts_pos.ne)
  have hnone : s.timeout = none := by
    by_contra hne
    exact (h.timer hne).2.1.1 hp
  unfold Waiting.call
  split
  · rename_i hlate
    have hnow : Attempting l condition { s with executedTimeOnStart := s.clock } :=
      { h with result := fun r moment hr => by simp [hpend] at hr }
    have hlen : s.invocations.length = 0 := by rw [hinv]; rfl
    have hfinish := hnow.finish (r := 0) fun _ => hlen ▸ .late hlate
    rwa [Waiting.finish, ← hnone] at hfinish
  · rw [← hi] at htried
    rw [loopHead_of_allowed (by exact htried.allowed), if_neg (by simp [hres])]
    apply invoke
    · exact h.invocations
    · simp [hinv, hi]
    · exact htried
    · exact fun hne hno => hne (if_pos hno)
    · exact hpend
    · exact hres

theorem settle (h : Attempting l condition s) (hp : s.phase = .awaitingCondition) :
    Attempting l condition (s.settle l (.ok (condition s.i))) := by
  have hawaits : s.Awaits := by simp [Waiting.Awaits, hp]
  obtain ⟨hlen, htried, hresolved⟩ := h.awaits hawaits
  simp only [Waiting.settle]
  split_ifs with hres htrue hlast hpast
  · exact h.return_ (hresolved.mp hres) hres s.i
  · apply h.finish
    intro _
    rw [hlen]
    exact .success htried htrue
  · apply h.finish
    intro _
    rw [hlen]
    by_cases hdie : condition s.i = .CMDFLOW_DIE
    · exact .died htried hdie
    · refine .exhausted htried (hlast.resolve_left hdie) ?_
      cases hc : condition s.i <;> simp_all
  · apply h.finish
    intro _
    rw [hlen]
    exact .timedOut htried (PastDeadline.deadline hpast)
  · obtain ⟨hdie, hne⟩ := not_or.mp hlast
    have hother : condition s.i = .other := by
      cases hc : condition s.i <;> simp_all
    exact { h with
      fresh := fun hp => by cases hp
      awaits := fun _ => ⟨hlen, htried, hresolved⟩
      sleeping := fun _ _ => ⟨hother, hne⟩
      timer := fun ht => ⟨(h.timer ht).1, by simp [Waiting.Awaits], (h.timer ht).2.2⟩
      finished := fun hp => by cases hp }

theorem wake (hw : l.Whole) (h : Attempting l condition s) {due : ℚ}
    (hp : s.phase = .sleeping due) : Attempting l condition (s.wake l none) := by
  have hawaits : s.Awaits := by simp [Waiting.Awaits, hp]
  obtain ⟨hlen, htried, hresolved⟩ := h.awaits hawaits
  obtain ⟨hother, hne⟩ := h.sleeping due hp
  unfold Waiting.wake
  split_ifs with hpast
  · apply h.finish
    intro _
    rw [hlen]
    exact .timedOut htried (PastDeadline.deadline hpast)
  · have hsucc := htried.succ hw hother hne
    rw [loopHead_of_allowed hsucc.allowed]
    split_ifs with hres
    · exact h.return_ (hresolved.mp hres) hres (s.i + 1)
    · apply invoke
      · exact h.invocations
      · exact congrArg (· + 1) hlen
      · exact hsucc
      · exact fun ht => (h.timer ht).1
      · by_contra hpend
        exact hres (hresolved.mpr hpend)
      · simpa using hres

theorem onTimeout (h : Attempting l condition s) (ht : s.timeout ≠ none) :
    Attempting l condition s.onTimeout := by
  obtain ⟨hdeadline, hawaits, hres⟩ := h.timer ht
  obtain ⟨hlen, htried, hresolved⟩ := h.awaits hawaits
  have hpend : s.returned = .pending := by
    by_contra hne
    simp [hresolved.mpr hne] at hres
  have hreturned : s.onTimeout.returned = .resolved (-s.i) s.clock :=
    resolve_of_pending (s := { s with timeout := none, resolved := true }) hpend _
  have hf := resolve_frame { s with timeout := none, resolved := true } (-s.i : ℚ)
  obtain ⟨-, hphase, hi, hflag, htimeout, hstart, -, hinv⟩ := hf
  have hawaits' : s.onTimeout.Awaits := by
    simpa [Waiting.Awaits, Waiting.onTimeout] using hawaits
  constructor
  · exact fun hp => absurd hp hawaits'.1
  · simpa [Waiting.onTimeout] using h.invocations
  · intro _
    simp only [hreturned]
    simpa [Waiting.onTimeout] using And.intro hlen htried
  · simpa [Waiting.onTimeout] using h.sleeping
  · intro hne
    simp [Waiting.onTimeout] at hne
  · exact fun hp => absurd hp hawaits'.2
  · intro r moment hr
    rw [hreturned] at hr
    cases hr
    simp only [Waiting.onTimeout, hinv, hstart, hlen]
    exact .timedOut htried hdeadline

theorem next (hw : l.Whole) (h : Attempting l condition s) {e : WaitEvent ε}
    (he : (yieldingMachine l condition ε).Enabled s e) :
    Attempting l condition (s.next l e) := by
  obtain ⟨he, hyields⟩ := he
  cases e with
  | call thrown =>
    obtain rfl : thrown = none := by simpa [Yields] using hyields
    exact h.call hw he
  | pass ms =>
    exact { h with fresh := fun hp => absurd hp he.1 }
  | settle ret =>
    obtain rfl : ret = .ok (condition s.i) := by
      cases ret with
      | error e => simp [Yields, Except.toOption] at hyields
      | ok ret => simpa [Yields, Except.toOption] using hyields
    exact h.settle he
  | wake thrown =>
    obtain rfl : thrown = none := by simpa [Yields] using hyields
    cases hp : s.phase with
    | sleeping due => exact h.wake hw hp
    | _ => simp [machine, Waiting.Enabled, hp] at he
  | timeout =>
    apply h.onTimeout
    intro hnone
    simp [machine, Waiting.Enabled, hnone] at he

theorem reached (hw : l.Whole) (h : Attempting l condition s)
    (hrun : (yieldingMachine l condition ε).Execution s t) : Attempting l condition t :=
  hrun.invariant h fun _ _ hu he => hu.next hw he

theorem sealed_next (h : Attempting l condition s) (hr : s.returned ≠ .pending)
    {e : WaitEvent ε} (he : (yieldingMachine l condition ε).Enabled s e) :
    (s.next l e).returned = s.returned ∧ (s.next l e).invocations = s.invocations := by
  obtain ⟨he, hyields⟩ := he
  cases e with
  | call thrown => exact absurd (h.fresh he).2.2.1 hr
  | pass ms => exact ⟨rfl, rfl⟩
  | settle ret =>
    simp only [Waiting.next, Waiting.settle]
    cases ret with
    | error e => exact ⟨rfl, rfl⟩
    | ok ret =>
      have hawaits : s.Awaits := ⟨by simp [show s.phase = _ from he],
        by simp [show s.phase = _ from he]⟩
      simp [((h.awaits hawaits).2.2).mpr hr, Waiting.return_]
  | wake thrown =>
    cases hp : s.phase with
    | sleeping due =>
      have hawaits : s.Awaits := by simp [Waiting.Awaits, hp]
      simp only [Waiting.next, Waiting.wake, Waiting.loopHead]
      split_ifs with hpast hle hres
      · exact finish_of_settled hr _
      · exact ⟨rfl, rfl⟩
      · exact absurd ((h.awaits hawaits).2.2.mpr hr) hres
      · exact finish_of_settled (s := { s with i := s.i + 1 }) hr _
    | _ => simp [machine, Waiting.Enabled, hp] at he
  | timeout =>
    cases ht : s.timeout with
    | some due =>
      obtain ⟨-, hawaits, hres⟩ := h.timer (by simp [ht])
      simp [(h.awaits hawaits).2.2.mpr hr] at hres
    | none => simp [machine, Waiting.Enabled, ht] at he

/-- Once there is a result it stays, and the condition is left alone. -/
theorem sealed (hw : l.Whole) (h : Attempting l condition s) (hr : s.returned ≠ .pending)
    (hrun : (yieldingMachine l condition ε).Execution s t) :
    t.returned = s.returned ∧ t.invocations = s.invocations := by
  suffices ht : Attempting l condition t ∧ t.returned = s.returned ∧
      t.invocations = s.invocations from ht.2
  apply hrun.invariant ⟨h, rfl, rfl⟩
  rintro u e ⟨hu, hret, hinv⟩ he
  obtain ⟨hret', hinv'⟩ := hu.sealed_next (hret ▸ hr) he
  exact ⟨hu.next hw he, hret'.trans hret, hinv'.trans hinv⟩

end Attempting

theorem Opts.whole {opts : Opts}
    (h : opts.maxAttempts = none ∨ ∃ n : ℕ, 0 < n ∧ opts.maxAttempts = some (n : WithTop ℚ)) :
    opts.limits.Whole := by
  rcases h with h | ⟨n, hn, h⟩
  · exact .inl (by simp [Opts.limits, positiveOr, h])
  · refine .inr ⟨n, ?_⟩
    simp [Opts.limits, positiveOr, h, hn]

/-- The condition is invoked with `1` to `|r|` before a result `r` and never after it. The
result is positive for the attempt that succeeded and zero for a call that came too late, and
without a deadline the attempts alone decide. -/
theorem result_counts_attempts (opts : Opts) (condition : ℕ → Ret) (now : ℚ)
    (hmax : opts.maxAttempts = none ∨
      ∃ n : ℕ, 0 < n ∧ opts.maxAttempts = some (n : WithTop ℚ))
    {s : Waiting ε} (h : (yieldingMachine opts.limits condition ε).Execution (start now) s)
    {r moment : ℚ} (hr : s.returned = .resolved r moment) :
    ∃ n : ℕ, |r| = n ∧ s.invocations = List.range' 1 n ∧
      (∀ t, (yieldingMachine opts.limits condition ε).Execution s t →
        t.returned = s.returned ∧ t.invocations = s.invocations) ∧
      (0 < r → condition n = .true ∧ ∀ j, 1 ≤ j → j < n → condition j = .other) ∧
      (r = 0 → opts.limits.timeoutOn < now) ∧
      (n : WithTop ℚ) ≤ opts.limits.maxAttempts ∧
      (opts.limits.NoDeadline → 1 ≤ n ∧ (∀ j, 1 ≤ j → j < n → condition j = .other) ∧
        (condition n = .true ∧ r = n ∨ condition n = .CMDFLOW_DIE ∧ r = -n ∨
          condition n = .other ∧ (n : WithTop ℚ) = opts.limits.maxAttempts ∧ r = -n)) := by
  have hw := Opts.whole hmax
  have hs := (start_attempting opts.limits condition now).reached hw h
  have hstart := (called_or_start h.of_restrict).2
  have hsettled : s.returned ≠ .pending := by simp [hr]
  have hd := hs.result r moment hr
  rw [hstart] at hd
  exact ⟨s.invocations.length, hd.abs_eq, hs.invocations, fun t ht => hs.sealed hw hsettled ht,
    hd.of_pos, hd.of_zero, hd.le_maxAttempts, hd.of_noDeadline⟩

def threeAttempts : Opts := ⟨some 10, some 3, none, none⟩

/-- The condition holds at its second invocation. -/
def holdsAtSecond (k : ℕ) : Ret := if k = 2 then .true else .other

def secondAttemptSucceeds : List (WaitEvent Unit) :=
  [.call none, .settle (.ok .other), .pass 10, .wake none, .settle (.ok .true)]

theorem result_counts_attempts_secondAttempt :
    ∃ n : ℕ, |(2 : ℚ)| = n ∧
      ((yieldingMachine threeAttempts.limits holdsAtSecond Unit).runTrace (start 1700000000000)
        secondAttemptSucceeds).invocations = List.range' 1 n := by
  obtain ⟨n, habs, hinv, -⟩ := result_counts_attempts threeAttempts holdsAtSecond 1700000000000
    (.inr ⟨3, by decide, rfl⟩)
    ((yieldingMachine threeAttempts.limits holdsAtSecond Unit).execution_of_trace
      (start 1700000000000) secondAttemptSucceeds (by decide +kernel))
    (show _ = Settlement.resolved 2 1700000000010 by decide +kernel)
  exact ⟨n, habs, hinv⟩

end WaitForCondition
