import NodeSrt.AsyncApiProgress
import NodeSrt.Simulation
import NodeSrt.WaitForConditionSteps
import Mathlib.Tactic.Linarith

/-! # The wait of AsyncSRT.dispose

`dispose` waits by `waitForCondition(() => ... <= 0)`. Here the call of the helper is run as
`tools.ts` has it, with its attempts, its sleeps and its clock, and what the phases of `dispose`
say of the wait is shown of it. -/
namespace AsyncApi

open AsyncValues
open TransitionSystem
open WaitForCondition (Waiting Opts Limits)

variable {κ : Type*}

def disposeLimits : Limits := (Opts.ofCondition none).limits

/-- An instance with the call of the helper once `dispose` has made it, what the last
invocation of the condition has yielded, and the moments of all of them. -/
structure Polled (κ : Type*) where
  async : AsyncSRT κ
  clock : ℚ
  wait : Option (Waiting Empty)
  yielded : Bool
  attempts : List ℚ

def Polled.initial (now : ℚ) : Polled κ := ⟨AsyncApi.initial, now, none, false, []⟩

def AsyncSRT.condition (s : AsyncSRT κ) : Bool := s.lockLevel ≤ 0

inductive PollEvent (κ : Type*) where
  | api (e : Event κ)
  | dispose
  | pass (ms : ℚ)
  | settle
  | wake
  | resume

/-- The events of the abstract machine that are no part of the wait. -/
def Event.ofApi : Event κ → Bool
  | .dispose | .pollDispose | .resumeDispose => false
  | .call _ _ _ | .exec _ | .deliver | .callbackReturn _ | .timer _ | .exited _ => true

/-- The microtask after `await condition(i)` and the one after `await waitForCondition(...)`. -/
def Polled.Settles (s : Polled κ) : Prop := ∃ w ∈ s.wait, w.phase = .awaitingCondition

def Polled.Resumes (s : Polled κ) : Prop :=
  s.async.disposing = .waiting ∧ ∃ w ∈ s.wait, w.returned ≠ .pending

/-- A message, a timer or the exit of the worker is handled when no microtask is left. -/
def Event.isTask : Event κ → Bool
  | .deliver | .timer _ | .exited _ => true
  | _ => false

def Polled.Enabled (s : Polled κ) : PollEvent κ → Prop
  | .api e => e.ofApi = true ∧ AsyncApi.Enabled s.async e ∧
      (e.isTask = true → ¬ s.Settles ∧ ¬ s.Resumes)
  | .dispose => True
  | .pass ms => 0 ≤ ms
  | .settle => s.Settles ∧ s.async.running = none
  | .wake => (∃ w ∈ s.wait, w.Enabled (.wake none)) ∧ s.async.running = none
  | .resume => s.Resumes ∧ s.async.running = none

instance (s : Polled κ) : Decidable s.Settles :=
  inferInstanceAs (Decidable (∃ w ∈ s.wait, w.phase = .awaitingCondition))

instance (s : Polled κ) : Decidable s.Resumes :=
  inferInstanceAs (Decidable (_ ∧ ∃ w ∈ s.wait, w.returned ≠ .pending))

instance (s : Polled κ) : (e : PollEvent κ) → Decidable (s.Enabled e)
  | .api _ => inferInstanceAs (Decidable (_ ∧ _ ∧ _))
  | .dispose => isTrue trivial
  | .pass _ => inferInstanceAs (Decidable (_ ≤ _))
  | .settle | .resume => inferInstanceAs (Decidable (_ ∧ _))
  | .wake => inferInstanceAs (Decidable ((∃ w ∈ s.wait, w.Enabled (.wake none)) ∧ _))

def Polled.dispose (s : Polled κ) : Polled κ :=
  if s.async.startedToDispose = false ∧ 0 < s.async.lockLevel then
    { s with
      async := s.async.dispose
      wait := some ((WaitForCondition.start s.clock).call disposeLimits none)
      yielded := s.async.condition
      attempts := [s.clock] }
  else { s with async := s.async.dispose }

def Polled.next (s : Polled κ) : PollEvent κ → Polled κ
  | .api e => { s with async := AsyncApi.next s.async e }
  | .dispose => s.dispose
  | .pass ms =>
    { s with clock := s.clock + ms, wait := s.wait.map fun w => w.next disposeLimits (.pass ms) }
  | .settle =>
    { s with wait := s.wait.map fun w =>
        w.settle disposeLimits (.ok (if s.yielded then .true else .other)) }
  | .wake =>
    { s with
      wait := s.wait.map fun w => w.wake disposeLimits none
      yielded := s.async.condition
      attempts := s.attempts ++ [s.clock] }
  | .resume => { s with async := s.async.terminateWorker }

def pollingMachine (κ : Type*) : Machine (Polled κ) (PollEvent κ) := ⟨Polled.Enabled, Polled.next⟩

instance (s : Polled κ) (e : PollEvent κ) : Decidable ((pollingMachine κ).Enabled s e) :=
  inferInstanceAs (Decidable (s.Enabled e))

/-! ## The helper without limits -/

theorem disposeLimits_inTime (w : Waiting Empty) : ¬ w.PastDeadline disposeLimits := by
  rintro (h | h)
  · exact not_top_lt h
  · exact not_top_lt h

theorem call_disposeLimits (now : ℚ) :
    (WaitForCondition.start now : Waiting Empty).call disposeLimits none =
      { WaitForCondition.start now with phase := .awaitingCondition, invocations := [1] } := rfl

theorem settle_disposeLimits {w : Waiting Empty} (h : w.resolved = false) (yielded : Bool) :
    w.settle disposeLimits (.ok (if yielded then .true else .other)) =
      if yielded then w.finish w.i else { w with phase := .sleeping (w.clock + 5) } := by
  have hdelay : WaitForCondition.waitDelay disposeLimits.ifFalseThenSleepForMs = 5 := by decide
  cases yielded with
  | true => simp [Waiting.settle, h]
  | false =>
    have hmax : (w.i : WithTop ℚ) ≠ disposeLimits.maxAttempts := WithTop.coe_ne_top
    simp [Waiting.settle, h, hmax, disposeLimits_inTime, hdelay]

theorem finish_of_pending {w : Waiting Empty} (h : w.returned = .pending) (r : ℚ) :
    w.finish r =
      { w with
        timeout := none
        phase := .finished
        returned := .resolved r w.clock
        executor := .resolved 0 w.clock } := by
  simp [Waiting.finish, Waiting.resolve, Waiting.return_, h]

theorem wake_disposeLimits {w : Waiting Empty} (h : w.resolved = false) :
    w.wake disposeLimits none =
      { w with
        i := w.i + 1
        phase := .awaitingCondition
        invocations := w.invocations ++ [w.i + 1] } := by
  have hallowed : ((w.i + 1 : ℕ) : WithTop ℚ) ≤ disposeLimits.maxAttempts := le_top
  rw [Waiting.wake, if_neg (disposeLimits_inTime w),
    WaitForCondition.loopHead_of_allowed (s := { w with i := w.i + 1 }) hallowed]
  simp [h, Waiting.invoke]

/-! ## What the phases of `dispose` do not touch -/

theorem next_disposing {a : AsyncSRT κ} {e : Event κ} (h : e.ofApi = true) :
    (next a e).disposing = a.disposing ∨ ∃ code, e = .exited code := by
  cases e with
  | call c callback waiter =>
    left
    rcases call_cases a c with he | ha | ht | ht
    · obtain ⟨n, e⟩ := apiCall_of_early he callback waiter
      rw [next, e]
      rfl
    · rw [next, apiCall_of_accepts ha]
      rfl
    · rw [next, apiCall_of_throws ht]
      rfl
    · rw [next, apiCall_of_untraced ht]
      rfl
  | exec o => left; simp only [next]; split <;> rfl
  | deliver =>
    left
    simp only [next]
    split
    · cases hw : a.worker with
      | false => rw [deliver_of_disposed hw]
      | true =>
        cases hq : a.workCbQueue with
        | nil => simp [AsyncSRT.deliver, AsyncSRT.onWorkerMessage, AsyncSRT.isDisposed, hw, hq]
        | cons cb ks => rw [deliver_of_queue hw hq, onResult_eq]
    · rfl
  | callbackReturn threw => left; simp only [next]; split <;> rfl
  | timer k => left; simp only [next]; split <;> rfl
  | exited code => exact Or.inr ⟨code, rfl⟩
  | dispose | pollDispose | resumeDispose => cases h

theorem next_deliver {a : AsyncSRT κ} {data : AsyncSRTWorkerMessage}
    {rest : List AsyncSRTWorkerMessage} (hm : a.toMain = data :: rest) :
    next a .deliver = a.deliver data := by
  simp [next, hm]

/-- The condition has held; `dispose` goes on when the microtasks are through. -/
def AsyncSRT.resumed (a : AsyncSRT κ) : AsyncSRT κ := { a with disposing := .resuming }

theorem deliver_resumed (a : AsyncSRT κ) (data : AsyncSRTWorkerMessage) :
    a.resumed.deliver data = (a.deliver data).resumed := by
  cases hw : a.worker with
  | false =>
    rw [deliver_of_disposed hw, deliver_of_disposed (s := a.resumed) hw]
    rfl
  | true =>
    cases hq : a.workCbQueue with
    | nil =>
      simp [AsyncSRT.resumed, AsyncSRT.deliver, AsyncSRT.onWorkerMessage, AsyncSRT.isDisposed, hw,
        hq]
    | cons cb ks =>
      rw [deliver_of_queue hw hq, deliver_of_queue (s := a.resumed) hw hq, onResult_eq,
        onResult_eq]
      rfl

theorem next_resumed {a : AsyncSRT κ} (hstarted : a.startedToDispose = true) {e : Event κ}
    (h : e.ofApi = true) (hno : ∀ code, e ≠ .exited code) :
    next a.resumed e = (next a e).resumed := by
  cases e with
  | call c callback waiter =>
    cases he : c.earlyError with
    | some err => simp [next, AsyncSRT.apiCall, AsyncSRT.recordWrite, AsyncSRT.resumed, he]
    | none =>
      cases hw : a.worker <;>
        simp [next, AsyncSRT.apiCall, AsyncSRT.createAsyncWorkPromise, AsyncSRT.isDisposed,
          AsyncSRT.recordWrite, AsyncSRT.resumed, he, hw, hstarted]
  | exec o => cases hq : a.toWorker <;> simp [next, AsyncSRT.exec, AsyncSRT.resumed, hq]
  | deliver =>
    cases hm : a.toMain with
    | nil => simp [next, AsyncSRT.resumed, hm]
    | cons data rest =>
      rw [next_deliver hm, next_deliver (a := a.resumed) hm, deliver_resumed]
  | callbackReturn threw =>
    cases hr : a.running <;> simp [next, AsyncSRT.finishOnResult, AsyncSRT.resumed, hr]
  | timer k =>
    cases ht : a.timeout k <;>
      simp [next, AsyncSRT.onTimeout, AsyncSRT.settle, AsyncSRT.resumed, ht]
  | exited code => exact absurd rfl (hno code)
  | dispose | pollDispose | resumeDispose => cases h

theorem terminateWorker_resumed {a : AsyncSRT κ} (hw : a.worker = true) :
    a.resumed.terminateWorker = a.terminateWorker := by
  rw [terminateWorker_eq hw, terminateWorker_eq (s := a.resumed) hw]
  rfl

/-! ## The simulation -/

/-- What the machine with the phases sees: the wait is over once the condition has yielded
`true`, though two microtasks are still to come. -/
def Polled.seen (s : Polled κ) : AsyncSRT κ :=
  if s.yielded = true ∧ s.async.disposing = .waiting then s.async.resumed else s.async

inductive Polled.Stage (s : Polled κ) (w : Waiting Empty) : Prop where
  | tests : w.phase = .awaitingCondition → w.returned = .pending → s.Stage w
  | sleeps {due : ℚ} : w.phase = .sleeping due → w.returned = .pending → s.yielded = false →
      due ≤ s.clock + 5 → (∀ moment ∈ s.attempts, moment + 5 ≤ due) → s.Stage w
  | ends {moment : ℚ} : w.phase = .finished → s.yielded = true →
      w.returned = .resolved w.i moment → s.Stage w

/-- The attempts are counted, and five milliseconds apart. -/
structure Polled.Waits (s : Polled κ) (w : Waiting Empty) : Prop where
  clock : w.clock = s.clock
  resolved : w.resolved = false
  counted : w.invocations.length = w.i ∧ s.attempts.length = w.i
  past : ∀ moment ∈ s.attempts, moment ≤ s.clock
  apart : s.attempts.Pairwise fun earlier later => earlier + 5 ≤ later
  stage : s.Stage w
  waiting : w.returned = .pending → s.async.disposing = .waiting

theorem Polled.Waits.frame {s t : Polled κ} {w : Waiting Empty} (h : s.Waits w)
    (hc : t.clock = s.clock) (hy : (t.yielded, t.attempts) = (s.yielded, s.attempts))
    (hd : w.returned = .pending → t.async.disposing = .waiting) : t.Waits w := by
  obtain ⟨hy, ha⟩ := Prod.mk.inj hy
  refine ⟨h.clock.trans hc.symm, h.resolved, ha ▸ h.counted, hc ▸ ha ▸ h.past, ha ▸ h.apart, ?_,
    hd⟩
  cases h.stage with
  | tests hp hr => exact .tests hp hr
  | sleeps hp hr hno hdue hapart => exact .sleeps hp hr (hy.trans hno) (hc ▸ hdue) (ha ▸ hapart)
  | ends hp hyes hr => exact .ends hp (hy.trans hyes) hr

structure Polls (s : Polled κ) : Prop where
  queued : Queued s.seen
  waits : ∀ w ∈ s.wait, s.Waits w
  called : s.async.disposing = .waiting → ∃ w, s.wait = some w
  silent : s.async.disposing ≠ .resuming
  fresh : s.wait = none → s.yielded = false

theorem initial_polls (now : ℚ) : Polls (Polled.initial now : Polled κ) := by
  refine ⟨?_, ?_, ?_, ?_, ?_⟩
  · simpa [Polled.seen, Polled.initial] using initial_queued
  all_goals simp [Polled.initial, AsyncApi.initial]

namespace Polls

variable {s : Polled κ}

theorem started (h : Polls s) (hd : s.async.disposing = .waiting) :
    s.async.startedToDispose = true := by
  have hq := h.queued.started
  unfold Polled.seen at hq
  by_contra hne
  have hno : s.async.startedToDispose = false := by simpa using hne
  split at hq
  · cases hq.mp hno
  · have := hd.symm.trans (hq.mp hno)
    cases this

theorem held (h : Polls s) (hd : s.async.disposing = .waiting) : s.async.worker = true := by
  have hq := h.queued.held
  unfold Polled.seen at hq
  split at hq
  · exact hq.mpr (Or.inr (Or.inr rfl))
  · exact hq.mpr (Or.inr (Or.inl hd))

theorem api_disposing {e : Event κ} (he : s.Enabled (.api e))
    (hd : s.async.disposing = .waiting) : (next s.async e).disposing = .waiting := by
  rcases next_disposing he.1 with hsame | ⟨code, rfl⟩
  · exact hsame.trans hd
  · exact absurd he.2.1.1 (by simp [hd])

theorem api_seen (h : Polls s) {e : Event κ} (he : s.Enabled (.api e)) :
    AsyncApi.Enabled s.seen e ∧ (s.next (.api e)).seen = next s.seen e := by
  unfold Polled.seen
  by_cases hover : s.yielded = true ∧ s.async.disposing = .waiting
  · have hno : ∀ code, e ≠ .exited code := by
      rintro code rfl
      exact absurd he.2.1.1 (by simp [hover.2])
    have hkept := api_disposing he hover.2
    rw [if_pos hover, next_resumed (h.started hover.2) he.1 hno]
    refine ⟨?_, if_pos ⟨hover.1, hkept⟩⟩
    have henabled := he.2.1
    cases e with
    | exec o =>
      refine ⟨henabled.1, fun hfin => ?_⟩
      cases hfin
    | exited code => exact absurd rfl (hno code)
    | dispose | pollDispose | resumeDispose => cases he.1
    | _ => exact henabled
  · rw [if_neg hover]
    refine ⟨he.2.1, if_neg fun hnow => hover ⟨hnow.1, ?_⟩⟩
    rcases next_disposing (a := s.async) he.1 with hsame | ⟨code, rfl⟩
    · exact hsame.symm.trans hnow.2
    · exact absurd hnow.2 (by simp [Polled.next, next])

theorem seen_of_not_waiting (hd : s.async.disposing ≠ .waiting) : s.seen = s.async :=
  if_neg fun h => hd h.2

theorem seen_of_yielded (hy : s.yielded = true) (hd : s.async.disposing = .waiting) :
    s.seen = s.async.resumed := if_pos ⟨hy, hd⟩

theorem not_waiting (h : Polls s) (hs : s.async.startedToDispose = false) :
    s.async.disposing ≠ .waiting := by
  intro hd
  have := h.started hd
  simp [hs] at this

theorem step_api (h : Polls s) {e : Event κ} (he : s.Enabled (.api e)) :
    Polls (s.next (.api e)) := by
  obtain ⟨henabled, hseen⟩ := h.api_seen he
  have hsame := next_disposing (a := s.async) he.1
  refine ⟨hseen ▸ h.queued.step henabled, fun w hw => ?_, fun hd => ?_, fun hr => ?_, h.fresh⟩
  · exact (h.waits w hw).frame rfl rfl fun hp => api_disposing he ((h.waits w hw).waiting hp)
  · rcases hsame with hsame | ⟨code, rfl⟩
    · exact h.called (hsame.symm.trans hd)
    · cases hd
  · rcases hsame with hsame | ⟨code, rfl⟩
    · exact h.silent (hsame.symm.trans hr)
    · cases hr

theorem call_waits {s' : Polled κ} (hd : s'.async.disposing = .waiting)
    (ha : s'.attempts = [s'.clock]) :
    s'.Waits ((WaitForCondition.start s'.clock).call disposeLimits none) := by
  rw [call_disposeLimits]
  refine ⟨rfl, rfl, ⟨rfl, by simp [ha, WaitForCondition.start]⟩, by simp [ha], by simp [ha],
    .tests rfl rfl, fun _ => hd⟩

theorem step_dispose (h : Polls s) :
    (machine κ).Execution s.seen s.dispose.seen ∧ Polls s.dispose := by
  rcases dispose_cases s.async with ⟨hs, e⟩ | ⟨hs, hl, e⟩ | ⟨hs, hl, e⟩
  · have hsame : s.dispose = s := by
      rw [Polled.dispose, if_neg (by simp [hs]), e]
    exact hsame.symm ▸ ⟨.refl _, h⟩
  · -- the helper is called
    have hnot := seen_of_not_waiting (h.not_waiting hs)
    have hd : s.async.dispose.disposing = .waiting := by rw [e]
    have hfalse : s.async.condition = false := by
      simpa [AsyncSRT.condition] using hl
    have hrun : s.dispose =
        { s with
          async := s.async.dispose
          wait := some ((WaitForCondition.start s.clock).call disposeLimits none)
          yielded := false
          attempts := [s.clock] } := by
      rw [Polled.dispose, if_pos ⟨hs, hl⟩, hfalse]
    have hseen : s.dispose.seen = next s.seen .dispose := by
      rw [hrun, hnot]
      rfl
    rw [hseen]
    refine ⟨.step (M := machine κ) (e := .dispose) trivial,
      hseen ▸ h.queued.step (e := .dispose) trivial, ?_, ?_, ?_, ?_⟩ <;>
      rw [hrun]
    · intro w hw
      cases hw
      exact call_waits hd rfl
    · exact fun _ => ⟨_, rfl⟩
    · simp [hd]
    · simp
  · have hnot := h.not_waiting hs
    have hgone : s.async.dispose.disposing ≠ .waiting ∧ s.async.dispose.disposing ≠ .resuming := by
      rw [e]
      cases s.async.worker <;> simp [AsyncSRT.terminateWorker]
    have hrun : s.dispose = { s with async := s.async.dispose } :=
      if_neg fun hc => by omega
    have hseen : s.dispose.seen = next s.seen .dispose := by
      rw [hrun, seen_of_not_waiting hnot]
      exact seen_of_not_waiting (s := { s with async := s.async.dispose }) hgone.1
    rw [hseen]
    refine ⟨.step (M := machine κ) (e := .dispose) trivial,
      hseen ▸ h.queued.step (e := .dispose) trivial, ?_, ?_, ?_, ?_⟩ <;>
      rw [hrun]
    · intro w hw
      exact (h.waits w hw).frame rfl rfl fun hp => absurd ((h.waits w hw).waiting hp) hnot
    · exact fun hd => absurd hd hgone.1
    · exact hgone.2
    · exact h.fresh

theorem step_pass (h : Polls s) {ms : ℚ} (he : 0 ≤ ms) : Polls (s.next (.pass ms)) := by
  refine ⟨h.queued, fun w hw => ?_, fun hd => ?_, h.silent, fun hn => ?_⟩
  · obtain ⟨v, hv, rfl⟩ := Option.mem_map.mp hw
    have hold := h.waits v hv
    refine ⟨congrArg (· + ms) hold.clock, hold.resolved, hold.counted,
      fun moment hm => (hold.past moment hm).trans (le_add_of_nonneg_right he), hold.apart, ?_,
      hold.waiting⟩
    · cases hold.stage with
      | tests hp hr => exact .tests hp hr
      | sleeps hp hr hy hdue hapart =>
        refine .sleeps hp hr hy ?_ hapart
        simp only [Polled.next]
        linarith
      | ends hp hy hr => exact .ends hp hy hr
  · obtain ⟨w, hw⟩ := h.called hd
    exact ⟨_, congrArg (Option.map _) hw⟩
  · exact h.fresh (by simpa [Polled.next] using hn)

/-- The microtask after an attempt ends the wait or puts it to sleep. -/
theorem step_settle (h : Polls s) (he : s.Enabled .settle) :
    (s.next .settle).seen = s.seen ∧ Polls (s.next .settle) := by
  obtain ⟨⟨w, hw, hphase⟩, _⟩ := he
  have hw : s.wait = some w := hw
  have hold := h.waits w hw
  have hpend : w.returned = .pending := by
    cases hold.stage with
    | tests _ hr => exact hr
    | sleeps hp => simp [hphase] at hp
    | ends hp => simp [hphase] at hp
  refine ⟨rfl, h.queued, fun v hv => ?_, fun hd => ?_, h.silent, fun hn => ?_⟩
  · obtain ⟨u, hu, rfl⟩ := Option.mem_map.mp hv
    obtain rfl : w = u := Option.some.inj (hw.symm.trans hu)
    rw [settle_disposeLimits hold.resolved]
    cases hy : s.yielded with
    | true =>
      rw [if_pos rfl, finish_of_pending hpend]
      refine ⟨hold.clock, hold.resolved, hold.counted, hold.past, hold.apart, .ends rfl hy rfl,
        fun hp => ?_⟩
      cases hp
    | false =>
      rw [if_neg Bool.false_ne_true]
      refine ⟨hold.clock, hold.resolved, hold.counted, hold.past, hold.apart,
        .sleeps rfl hpend hy ?_ fun moment hm => ?_, fun _ => hold.waiting hpend⟩
      · rw [hold.clock]
        exact le_rfl
      · rw [hold.clock]
        exact add_le_add_left (hold.past moment hm) 5
  · exact ⟨_, congrArg (Option.map _) hw⟩
  · simp [Polled.next, hw] at hn

/-- A new attempt sees what a poll of the machine with the phases sees. -/
theorem step_wake (h : Polls s) (he : s.Enabled .wake) :
    (machine κ).Execution s.seen (s.next .wake).seen ∧ Polls (s.next .wake) := by
  obtain ⟨⟨w, hw, hwake⟩, hrun⟩ := he
  have hw : s.wait = some w := hw
  have hold := h.waits w hw
  cases hold.stage with
  | tests hp => simp [Waiting.Enabled, hp] at hwake
  | ends hp => simp [Waiting.Enabled, hp] at hwake
  | @sleeps due hp hpend hno hdue hapart =>
    have hclock : due ≤ w.clock := by simpa only [Waiting.Enabled, hp] using hwake
    have hd := hold.waiting hpend
    have hbefore : s.seen = s.async := if_neg (by simp [hno])
    have hseen : (s.next .wake).seen = next s.seen .pollDispose := by
      rw [hbefore]
      simp only [Polled.seen, Polled.next, AsyncSRT.condition, next, hd, and_true,
        decide_eq_true_eq]
      rfl
    have henabled : AsyncApi.Enabled s.seen .pollDispose := by
      rw [hbefore]
      exact ⟨hd, hrun⟩
    rw [hseen]
    refine ⟨.step (M := machine κ) (e := .pollDispose) henabled,
      hseen ▸ h.queued.step (e := .pollDispose) henabled, fun v hv => ?_, fun _ => ?_, h.silent,
      fun hn => ?_⟩
    · obtain ⟨u, hu, rfl⟩ := Option.mem_map.mp hv
      obtain rfl : w = u := Option.some.inj (hw.symm.trans hu)
      rw [wake_disposeLimits hold.resolved]
      have hnow : due ≤ s.clock := hold.clock ▸ hclock
      refine ⟨hold.clock, hold.resolved, ?_, fun moment hm => ?_, ?_, .tests rfl hpend, fun _ => hd⟩
      · simp [Polled.next, hold.counted]
      · rcases List.mem_append.mp hm with hm | hm
        · exact hold.past moment hm
        · exact (List.mem_singleton.mp hm).le
      · -- the sleep before this attempt was the last attempt's
        refine List.pairwise_append.mpr ⟨hold.apart, List.pairwise_singleton _ _, ?_⟩
        intro moment hm later hl
        rw [List.mem_singleton.mp hl]
        exact (hapart moment hm).trans hnow
    · exact ⟨_, congrArg (Option.map _) hw⟩
    · simp [Polled.next, hw] at hn

theorem yielded_of_resumes (h : Polls s) (hr : s.Resumes) : s.yielded = true := by
  obtain ⟨_, w, hw, hret⟩ := hr
  cases (h.waits w hw).stage with
  | tests _ hp => exact absurd hp hret
  | sleeps _ hp => exact absurd hp hret
  | ends _ hy => exact hy

theorem step_resume (h : Polls s) (he : s.Enabled .resume) :
    (machine κ).Execution s.seen (s.next .resume).seen ∧ Polls (s.next .resume) := by
  obtain ⟨hres, hrun⟩ := he
  have hd := hres.1
  have hbefore := seen_of_yielded (h.yielded_of_resumes hres) hd
  have hw := h.held hd
  have hterm : s.async.terminateWorker.disposing = .terminating := by rw [terminateWorker_eq hw]
  have hseen : (s.next .resume).seen = next s.seen .resumeDispose := by
    rw [hbefore, next, terminateWorker_resumed hw]
    exact seen_of_not_waiting (s := s.next .resume) (by simp [Polled.next, hterm])
  have henabled : AsyncApi.Enabled s.seen .resumeDispose := by
    rw [hbefore]
    exact ⟨rfl, hrun⟩
  rw [hseen]
  refine ⟨.step (M := machine κ) (e := .resumeDispose) henabled,
    hseen ▸ h.queued.step (e := .resumeDispose) henabled, fun v hv => ?_, ?_, ?_, h.fresh⟩
  · obtain ⟨_, w, hw, hret⟩ := hres
    obtain rfl : w = v := Option.some.inj (Eq.symm hw |>.trans hv)
    exact (h.waits w hw).frame rfl rfl fun hp => absurd hp hret
  · simp [Polled.next, hterm]
  · simp [Polled.next, hterm]

end Polls

theorem polling_simulated (κ : Type*) :
    (machine κ).Simulates (pollingMachine κ) Polled.seen Polls where
  kept s e h he := by
    cases e with
    | api e => exact h.step_api he
    | dispose => exact h.step_dispose.2
    | pass ms => exact h.step_pass he
    | settle => exact (h.step_settle he).2
    | wake => exact (h.step_wake he).2
    | resume => exact (h.step_resume he).2
  answer s e h he := by
    cases e with
    | api e =>
      obtain ⟨henabled, hseen⟩ := h.api_seen he
      exact hseen ▸ .step (M := machine κ) henabled
    | dispose => exact h.step_dispose.1
    | pass ms => exact .of_eq rfl
    | settle => exact .of_eq (h.step_settle he).1
    | wake => exact (h.step_wake he).1
    | resume => exact (h.step_resume he).1

/-- `dispose` with the helper it really calls does nothing that the machine with the phases does
not do, so what holds of all runs of that machine holds here. Any two attempts are at least five
milliseconds apart, a sleep is over within five, the wait results in the number of attempts, and
the worker is dropped while the counter is still down. -/
theorem polling_refines {now : ℚ} {s : Polled κ}
    (h : (pollingMachine κ).Execution (.initial now) s) :
    Reachable s.seen ∧ (s.Resumes → s.async.lockLevel ≤ 0) ∧
      ∀ w ∈ s.wait, (w.invocations.length = w.i ∧ s.attempts.length = w.i) ∧
        s.attempts.Pairwise (fun earlier later => earlier + 5 ≤ later) ∧
        (∀ due, w.phase = .sleeping due → due ≤ s.clock + 5) ∧
        ∀ r moment, w.returned = .resolved r moment → r = w.i := by
  obtain ⟨hpolls, hrun⟩ := (polling_simulated κ).execution (initial_polls now) h
  refine ⟨hrun, fun hres => ?_, fun w hw => ?_⟩
  · have hresuming := hpolls.queued.resuming
    rw [Polls.seen_of_yielded (hpolls.yielded_of_resumes hres) hres.1] at hresuming
    exact hresuming rfl
  · have hwaits := hpolls.waits w hw
    refine ⟨hwaits.counted, hwaits.apart, fun due hdue => ?_, fun r moment hr => ?_⟩
    · cases hwaits.stage with
      | tests hp => simp [hp] at hdue
      | sleeps hp _ _ hle =>
        rw [hp] at hdue
        cases hdue
        exact hle
      | ends hp => simp [hp] at hdue
    · cases hwaits.stage with
      | tests _ hp => simp [hp] at hr
      | sleeps _ hp => simp [hp] at hr
      | ends _ _ hret =>
        rw [hret] at hr
        cases hr
        rfl

/-- The first attempt sees a call that is under way, the second sees its callback returned. -/
def polledRun : List (PollEvent Unit) :=
  [.api (.call (.close (.number 1)) true ()), .dispose, .settle, .api (.exec (.ok (.number 0))),
    .api .deliver, .api (.callbackReturn false), .pass 6, .wake, .settle]

theorem polling_refines_polledRun :
    Reachable ((pollingMachine Unit).runTrace (.initial 100) polledRun).seen ∧
      ((pollingMachine Unit).runTrace (.initial 100) polledRun).Resumes :=
  ⟨(polling_refines ((pollingMachine Unit).execution_of_trace _ polledRun
      (by decide +kernel))).1,
    by decide⟩

/-! ## The end of the wait -/

theorem Polled.run {s : Polled κ} {e : PollEvent κ} (h : s.Enabled e) :
    (pollingMachine κ).Execution s (s.next e) := .step (M := pollingMachine κ) (e := e) h

theorem settle_wait {s : Polled κ} {w : Waiting Empty} (hw : s.wait = some w)
    (h : w.resolved = false) :
    (s.next .settle).wait = some (if s.yielded then w.finish w.i
      else { w with phase := .sleeping (w.clock + 5) }) := by
  simp only [Polled.next, hw, Option.map_some, settle_disposeLimits h]

namespace Polls

variable {s : Polled κ}

theorem ends_of_tested (h : Polls s) {w : Waiting Empty} (hw : w ∈ s.wait)
    (hphase : w.phase = .awaitingCondition) (hy : s.yielded = true)
    (hd : s.async.disposing = .waiting) (hrun : s.async.running = none) :
    ∃ t, (pollingMachine κ).Execution s t ∧ t.async = s.async.terminateWorker ∧
      t.clock = s.clock := by
  have hsettle : s.Enabled .settle := ⟨⟨w, hw, hphase⟩, hrun⟩
  have hpend : w.returned = .pending := by
    cases (h.waits w hw).stage with
    | tests _ hr => exact hr
    | sleeps hp => simp [hphase] at hp
    | ends hp => simp [hphase] at hp
  have hwait : (s.next .settle).wait = some (w.finish w.i) := by
    rw [settle_wait hw (h.waits w hw).resolved, hy, if_pos rfl]
  have hresume : (s.next .settle).Enabled .resume := by
    refine ⟨⟨hd, w.finish w.i, hwait, ?_⟩, hrun⟩
    rw [finish_of_pending hpend]
    simp
  exact ⟨_, (Polled.run hsettle).trans (Polled.run hresume), rfl, rfl⟩

theorem ends_of_sleeping (h : Polls s) {w : Waiting Empty} (hw : w ∈ s.wait) {due : ℚ}
    (hphase : w.phase = .sleeping due) (hl : s.async.lockLevel ≤ 0)
    (hd : s.async.disposing = .waiting) (hrun : s.async.running = none) :
    ∃ t, (pollingMachine κ).Execution s t ∧ t.async = s.async.terminateWorker ∧
      t.clock = max s.clock due := by
  have hclock := (h.waits w hw).clock
  have hpass : s.Enabled (.pass (max 0 (due - s.clock))) := le_max_left _ _
  have hslept := h.step_pass hpass
  have htime : s.clock + max 0 (due - s.clock) = max s.clock due := by
    rw [← max_add_add_left]
    simp
  have hw : s.wait = some w := hw
  have hwake : (s.next (.pass (max 0 (due - s.clock)))).Enabled .wake := by
    refine ⟨⟨_, congrArg (Option.map _) hw, ?_⟩, hrun⟩
    simp only [Waiting.Enabled, Waiting.next, hphase, hclock, htime]
    exact le_max_right _ _
  obtain ⟨t, ht, hasync, hend⟩ := (hslept.step_wake hwake).2.ends_of_tested
    (w := { w with
      clock := w.clock + max 0 (due - s.clock)
      i := w.i + 1
      phase := .awaitingCondition
      invocations := w.invocations ++ [w.i + 1] })
    (by
      simp only [Polled.next, hw, Option.map_some, Waiting.next, Option.mem_some_iff]
      exact wake_disposeLimits (w := { w with clock := w.clock + max 0 (due - s.clock) })
        (h.waits w hw).resolved)
    rfl (decide_eq_true hl) hd hrun
  exact ⟨t, ((Polled.run hpass).trans (Polled.run hwake)).trans ht, hasync,
    hend.trans htime⟩

theorem ends_in_time (hpolls : Polls s) (hd : s.async.disposing = .waiting)
    (hrun : s.async.running = none) (hl : s.async.lockLevel ≤ 0) :
    ∃ t, (pollingMachine κ).Execution s t ∧ t.async = s.async.terminateWorker ∧
      t.clock ≤ s.clock + 5 := by
  obtain ⟨w, hw⟩ := hpolls.called hd
  have hwaits := hpolls.waits w hw
  cases hwaits.stage with
  | tests hp hr =>
    cases hy : s.yielded with
    | true =>
      obtain ⟨t, ht, hasync, hclock⟩ := hpolls.ends_of_tested hw hp hy hd hrun
      exact ⟨t, ht, hasync, by linarith⟩
    | false =>
      -- an attempt is under way that has seen the counter up
      have hsettle : s.Enabled .settle := ⟨⟨w, hw, hp⟩, hrun⟩
      have hwait : (s.next .settle).wait = some { w with phase := .sleeping (s.clock + 5) } := by
        rw [settle_wait hw hwaits.resolved, hy, if_neg Bool.false_ne_true, hwaits.clock]
      obtain ⟨t, ht, hasync, hclock⟩ :=
        (hpolls.step_settle hsettle).2.ends_of_sleeping hwait rfl hl hd hrun
      refine ⟨t, (Polled.run hsettle).trans ht, hasync, ?_⟩
      rw [hclock]
      exact max_le (by simp [Polled.next]) le_rfl
  | @sleeps due hp _ _ hdue =>
    obtain ⟨t, ht, hasync, hclock⟩ := hpolls.ends_of_sleeping hw hp hl hd hrun
    refine ⟨t, ht, hasync, ?_⟩
    rw [hclock]
    exact max_le (by linarith) hdue
  | ends hp hy hr =>
    have hresume : s.Enabled .resume := ⟨⟨hd, w, hw, by simp [hr]⟩, hrun⟩
    exact ⟨_, Polled.run hresume, rfl, by simp [Polled.next]⟩

end Polls

/-! ## The time the end takes -/

/-- Time does not pass while a microtask of the wait is pending, nor beyond the end of its
sleep. -/
def Prompt (s : Polled κ) : PollEvent κ → Prop
  | .pass ms => ¬ s.Settles ∧ ¬ s.Resumes ∧
      ∀ w ∈ s.wait, ∀ due, w.phase = .sleeping due → s.clock + ms ≤ due
  | _ => True

theorem next_lockLevel_le {a : AsyncSRT κ} (hstarted : a.startedToDispose = true) {e : Event κ}
    (h : e.ofApi = true) : (next a e).lockLevel ≤ a.lockLevel := by
  cases e with
  | call c callback waiter =>
    have hno : ¬ ReachesPost a c := fun hc => by simp [hc.2.2.1] at hstarted
    obtain ⟨n, e⟩ := apiCall_of_early hno callback waiter
    rw [next, e]
    exact le_rfl
  | exec o => simp only [next]; split <;> exact le_rfl
  | deliver =>
    simp only [next]
    split
    · cases hw : a.worker with
      | false => rw [deliver_of_disposed hw]
      | true =>
        cases hq : a.workCbQueue with
        | nil => simp [AsyncSRT.deliver, AsyncSRT.onWorkerMessage, AsyncSRT.isDisposed, hw, hq]
        | cons cb ks =>
          rw [deliver_of_queue hw hq, onResult_eq]
          dsimp only
          split <;> omega
    · exact le_rfl
  | callbackReturn threw =>
    simp only [next]
    split
    · simp only [AsyncSRT.finishOnResult]
      split <;> omega
    · exact le_rfl
  | timer k =>
    simp only [next]
    split
    · simp only [AsyncSRT.onTimeout, AsyncSRT.settle]
      omega
    · exact le_rfl
  | exited code => exact le_rfl
  | dispose | pollDispose | resumeDispose => cases h

/-- A wait that the counter does not hold up is over by `limit`. -/
structure Polled.Due (limit : ℚ) (s : Polled κ) : Prop where
  polls : Polls s
  started : s.async.startedToDispose = true
  down : s.async.disposing = .waiting → s.async.lockLevel ≤ 0
  clock : s.async.disposing = .waiting → s.clock ≤ limit
  tested : ∀ w ∈ s.wait, w.phase = .awaitingCondition → s.yielded = false → s.clock + 5 ≤ limit
  slept : ∀ w ∈ s.wait, ∀ due, w.phase = .sleeping due → due ≤ limit

namespace Polled.Due

variable {s : Polled κ} {limit : ℚ}

theorem step_api (h : s.Due limit) {e : Event κ} (he : s.Enabled (.api e)) :
    (s.next (.api e)).Due limit := by
  have hback : (s.next (.api e)).async.disposing = .waiting → s.async.disposing = .waiting := by
    intro hd
    rcases next_disposing (a := s.async) he.1 with hsame | ⟨code, rfl⟩
    · exact hsame.symm.trans hd
    · cases hd
  exact ⟨h.polls.step_api he, started_of_next h.started e,
    fun hd => (next_lockLevel_le h.started he.1).trans (h.down (hback hd)),
    fun hd => h.clock (hback hd), h.tested, h.slept⟩

theorem step_pass (h : s.Due limit) {ms : ℚ} (he : 0 ≤ ms) (hp : Prompt s (.pass ms)) :
    (s.next (.pass ms)).Due limit := by
  obtain ⟨hsettles, hresumes, hdue⟩ := hp
  refine ⟨h.polls.step_pass he, h.started, h.down, fun hd => ?_, fun v hv hphase => ?_,
    fun v hv due hphase => ?_⟩
  · obtain ⟨w, hw⟩ := h.polls.called hd
    cases (h.polls.waits w hw).stage with
    | tests hp => exact absurd ⟨w, hw, hp⟩ hsettles
    | @sleeps due hp => exact (hdue w hw due hp).trans (h.slept w hw due hp)
    | ends _ _ hr => exact absurd ⟨hd, w, hw, by simp [hr]⟩ hresumes
  · obtain ⟨w, hw, rfl⟩ := Option.mem_map.mp hv
    exact absurd ⟨w, hw, hphase⟩ hsettles
  · obtain ⟨w, hw, rfl⟩ := Option.mem_map.mp hv
    exact h.slept w hw due hphase

theorem step_settle (h : s.Due limit) (he : s.Enabled .settle) : (s.next .settle).Due limit := by
  obtain ⟨w, hw, hphase⟩ := he.1
  have hwait := settle_wait hw (h.polls.waits w hw).resolved
  refine ⟨(h.polls.step_settle he).2, h.started, h.down, h.clock, fun v hv hp hy => ?_,
    fun v hv due hp => ?_⟩
  all_goals
    obtain rfl := Option.some.inj (hwait.symm.trans hv)
    cases hy' : s.yielded with
    | true => simp [hy', Waiting.finish, Waiting.return_] at hp
    | false => ?_
  · simp [hy'] at hp
  · have hend := h.tested w hw hphase hy'
    rw [hy', if_neg Bool.false_ne_true] at hp
    rw [← (h.polls.waits w hw).clock] at hend
    cases hp
    exact hend

theorem step_wake (h : s.Due limit) (he : s.Enabled .wake) : (s.next .wake).Due limit := by
  obtain ⟨w, hw, hwake⟩ := he.1
  have hw : s.wait = some w := hw
  have hpolls := (h.polls.step_wake he).2
  have hd : s.async.disposing = .waiting := by
    cases (h.polls.waits w hw).stage with
    | tests hp => simp [Waiting.Enabled, hp] at hwake
    | sleeps _ hpend => exact (h.polls.waits w hw).waiting hpend
    | ends hp => simp [Waiting.Enabled, hp] at hwake
  refine ⟨hpolls, h.started, h.down, h.clock, fun v hv hp hy => ?_, fun v hv due hp => ?_⟩
  · have hyes : (s.next .wake).yielded = true := decide_eq_true (h.down hd)
    simp [hyes] at hy
  · obtain ⟨u, hu, rfl⟩ := Option.mem_map.mp hv
    rw [wake_disposeLimits (h.polls.waits u hu).resolved] at hp
    cases hp

theorem step_resume (h : s.Due limit) (he : s.Enabled .resume) :
    (s.next .resume).Due limit := by
  have hterm : (s.next .resume).async.disposing = .terminating ∧
      (s.next .resume).async.startedToDispose = true := by
    simpa only [Polled.next, terminateWorker_eq (h.polls.held he.1.1), true_and] using h.started
  exact ⟨(h.polls.step_resume he).2, hterm.2, fun hd => by simp [hterm.1] at hd,
    fun hd => by simp [hterm.1] at hd, h.tested, h.slept⟩

theorem step (h : s.Due limit) {e : PollEvent κ} (he : s.Enabled e) (hp : Prompt s e) :
    (s.next e).Due limit := by
  cases e with
  | api e => exact h.step_api he
  | dispose =>
    have hsame : s.dispose = s := by
      rw [Polled.dispose, if_neg (by simp [h.started]), AsyncSRT.dispose, if_pos h.started]
    exact (hsame.symm ▸ h :)
  | pass ms => exact h.step_pass he hp
  | settle => exact h.step_settle he
  | wake => exact h.step_wake he
  | resume => exact h.step_resume he

end Polled.Due

/-- When the counter is down, `dispose` drops the worker within five milliseconds. It does so
without anybody's help, and whatever else happens it does not wait longer than that, provided
that time does not run past what the wait has to do. -/
theorem polling_ends_in_time {now : ℚ} {s : Polled κ}
    (h : (pollingMachine κ).Execution (.initial now) s) (hd : s.async.disposing = .waiting)
    (hrun : s.async.running = none) (hl : s.async.lockLevel ≤ 0) :
    (∀ t, ((pollingMachine κ).restrict Prompt).Execution s t →
      t.async.disposing = .waiting → t.clock ≤ s.clock + 5) ∧
    ∃ t, (pollingMachine κ).Execution s t ∧ t.async = s.async.terminateWorker ∧
      t.clock ≤ s.clock + 5 := by
  obtain ⟨hpolls, _⟩ := (polling_simulated κ).execution (initial_polls now) h
  refine ⟨fun t ht => ?_, hpolls.ends_in_time hd hrun hl⟩
  have hdue : s.Due (s.clock + 5) := by
    refine ⟨hpolls, hpolls.started hd, fun _ => hl, fun _ => by linarith,
      fun _ _ _ _ => le_rfl, fun w hw due hp => ?_⟩
    cases (hpolls.waits w hw).stage with
    | tests ht => simp [hp] at ht
    | sleeps hs _ _ hle =>
      rw [hp] at hs
      cases hs
      exact hle
    | ends he => simp [hp] at he
  exact (ht.invariant hdue fun _ _ hu he => hu.step he.1 he.2).clock

theorem polling_ends_in_time_polledRun :
    ∃ t, (pollingMachine Unit).Execution
        ((pollingMachine Unit).runTrace (.initial 100) (polledRun.take 6)) t ∧
      t.async.worker = false ∧ t.clock ≤ 105 := by
  obtain ⟨t, ht, hasync, hclock⟩ := (polling_ends_in_time
    ((pollingMachine Unit).execution_of_trace (.initial 100) (polledRun.take 6) (by decide))
    (by decide) (by rfl) (by decide)).2
  have hworker : ((pollingMachine Unit).runTrace (.initial 100)
      (polledRun.take 6)).async.terminateWorker.worker = false := by decide
  have hnow : ((pollingMachine Unit).runTrace (.initial 100 : Polled Unit)
      (polledRun.take 6)).clock + 5 = 105 := by decide +kernel
  exact ⟨t, ht, hasync ▸ hworker, hnow ▸ hclock⟩

end AsyncApi
