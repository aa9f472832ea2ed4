import Mathlib.Algebra.Field.Rat
import Mathlib.Algebra.Order.Monoid.Unbundled.WithTop
import Mathlib.Algebra.Order.Ring.Rat
import Mathlib.Data.Rat.Floor
import NodeSrt.TransitionSystem

/-! # waitForCondition

The polling helper of `tools.ts` with its deadline timer. Times are milliseconds since the
epoch; `Date.now()` and `performance.now()` read one clock, and no timer fires before its delay
is over. A turn of the event loop takes no time, so an invocation of the condition takes none of
its own; between two turns, also while the condition is awaited, any time may pass. -/
namespace WaitForCondition

open TransitionSystem

/-! ## Timers -/

def TIMEOUT_MAX : ℚ := 2147483647

def MAX_SAFE_INTEGER : ℚ := 9007199254740991

/-- The delay `setTimeout` makes of its argument: one out of range becomes a millisecond, and
of any other the whole milliseconds count. -/
def timerDelay : WithTop ℚ → ℚ
  | none => 1
  | some after => if 1 ≤ after ∧ after ≤ TIMEOUT_MAX then ⌊after⌋ else 1

/-- How long `wait` takes, which does not wait at all for a number too big. -/
def waitDelay (msecs : WithTop ℚ) : ℚ :=
  if MAX_SAFE_INTEGER ≤ msecs then 0
  else timerDelay (if ((-MAX_SAFE_INTEGER : ℚ) : WithTop ℚ) ≤ msecs then msecs else 0)

/-! ## Options -/

/-- The options besides the condition, as they are passed; NaN counts as absent. -/
structure Opts where
  ifFalseThenSleepForMs : Option (WithTop ℚ)
  maxAttempts : Option (WithTop ℚ)
  timeoutIn : Option (WithTop ℚ)
  timeoutOn : Option (WithTop ℚ)
  deriving DecidableEq

/-- The constants the function starts with, Infinity where there is no limit. -/
structure Limits where
  ifFalseThenSleepForMs : WithTop ℚ
  maxAttempts : WithTop ℚ
  timeoutIn : WithTop ℚ
  timeoutOn : WithTop ℚ
  maxAttempts_pos : 0 < maxAttempts
  timeoutIn_pos : 0 < timeoutIn
  timeoutOn_pos : 0 < timeoutOn

/-- `opt > 0 ? opt : Infinity` -/
def positiveOr (opt : Option (WithTop ℚ)) : WithTop ℚ :=
  match opt with
  | some v => if 0 < v then v else ⊤
  | none => ⊤

theorem positiveOr_pos (opt : Option (WithTop ℚ)) : 0 < positiveOr opt := by
  unfold positiveOr
  split
  · split
    · assumption
    · exact WithTop.top_pos
  · exact WithTop.top_pos

/-- `ifFalseThenSleepForMs || 5` is taken here as well. -/
def Opts.limits (opts : Opts) : Limits where
  ifFalseThenSleepForMs :=
    match opts.ifFalseThenSleepForMs with
    | some ms => if ms = 0 then 5 else ms
    | none => 5
  maxAttempts := positiveOr opts.maxAttempts
  timeoutIn := positiveOr opts.timeoutIn
  timeoutOn := positiveOr opts.timeoutOn
  maxAttempts_pos := positiveOr_pos _
  timeoutIn_pos := positiveOr_pos _
  timeoutOn_pos := positiveOr_pos _

def Opts.ofCondition (ifFalseThenSleepForMs_ : Option (WithTop ℚ)) : Opts :=
  ⟨ifFalseThenSleepForMs_, none, none, none⟩

/-- A second, for as many attempts as it takes. -/
def oneSecond : Opts := ⟨some (5 : ℕ), none, some (1000 : ℕ), none⟩

def Limits.NoDeadline (l : Limits) : Prop := l.timeoutIn = ⊤ ∧ l.timeoutOn = ⊤

instance (l : Limits) : Decidable l.NoDeadline := inferInstanceAs (Decidable (_ ∧ _))

/-! ## State -/

inductive Ret where
  | true | CMDFLOW_DIE | other
  deriving DecidableEq, Repr

inductive Phase where
  | notCalled | awaitingCondition | sleeping (due : ℚ) | finished
  deriving DecidableEq, Repr

/-- A promise of the call; a resolved one keeps when that was. -/
inductive Settlement (ε : Type*) where
  | pending
  | resolved (r : ℚ) (moment : ℚ)
  | rejected (e : ε)
  deriving DecidableEq, Repr

/-- The locals of the call, the clock, and the arguments the condition was invoked with.
`timeout` says when the armed timer is due, `executor` is the promise of the async executor,
which nobody holds. -/
structure Waiting (ε : Type*) where
  clock : ℚ
  phase : Phase
  i : ℕ
  resolved : Bool
  executedTimeOnStart : ℚ
  timeout : Option ℚ
  returned : Settlement ε
  executor : Settlement ε
  invocations : List ℕ

variable {ε : Type*}

def Waiting.Awaits (s : Waiting ε) : Prop := s.phase ≠ .notCalled ∧ s.phase ≠ .finished

def start (now : ℚ) : Waiting ε where
  clock := now
  phase := .notCalled
  i := 1
  resolved := false
  executedTimeOnStart := now
  timeout := none
  returned := .pending
  executor := .pending
  invocations := []

/-! ## The executor -/

/-- `resolve`, of which the first call decides. -/
def Waiting.resolve (s : Waiting ε) (r : ℚ) : Waiting ε :=
  match s.returned with
  | .pending => { s with returned := .resolved r s.clock }
  | _ => s

def Waiting.return_ (s : Waiting ε) : Waiting ε :=
  { s with phase := .finished, executor := .resolved 0 s.clock }

/-- `clearTimeout(timeout); return resolve(r)` -/
def Waiting.finish (s : Waiting ε) (r : ℚ) : Waiting ε :=
  ({ s with timeout := none }.resolve r).return_

/-- An error leaves the executor. It rejects the executor's own promise. -/
def Waiting.throw_ (s : Waiting ε) (e : ε) : Waiting ε :=
  { s with phase := .finished, executor := .rejected e }

def Waiting.invoke (s : Waiting ε) (thrown : Option ε) : Waiting ε :=
  let s := { s with invocations := s.invocations ++ [s.i] }
  match thrown with
  | some e => s.throw_ e
  | none => { s with phase := .awaitingCondition }

@[simp] theorem resolve_frame (s : Waiting ε) (r : ℚ) :
    (s.resolve r).clock = s.clock ∧ (s.resolve r).phase = s.phase ∧ (s.resolve r).i = s.i ∧
      (s.resolve r).resolved = s.resolved ∧ (s.resolve r).timeout = s.timeout ∧
      (s.resolve r).executedTimeOnStart = s.executedTimeOnStart ∧
      (s.resolve r).executor = s.executor ∧ (s.resolve r).invocations = s.invocations := by
  unfold Waiting.resolve
  split <;> simp

theorem resolve_of_pending {s : Waiting ε} (h : s.returned = .pending) (r : ℚ) :
    (s.resolve r).returned = .resolved r s.clock := by
  simp only [Waiting.resolve, h]

theorem resolve_of_settled {s : Waiting ε} (h : s.returned ≠ .pending) (r : ℚ) :
    s.resolve r = s := by
  unfold Waiting.resolve
  split
  · exact absurd ‹_› h
  · rfl

theorem resolve_returned (s : Waiting ε) (r : ℚ) :
    (s.returned = .pending ∧ (s.resolve r).returned = .resolved r s.clock) ∨
      (s.returned ≠ .pending ∧ (s.resolve r).returned = s.returned) := by
  by_cases h : s.returned = .pending
  · exact Or.inl ⟨h, resolve_of_pending h r⟩
  · exact Or.inr ⟨h, by rw [resolve_of_settled h]⟩

theorem finish_of_settled {s : Waiting ε} (h : s.returned ≠ .pending) (r : ℚ) :
    (s.finish r).returned = s.returned ∧ (s.finish r).invocations = s.invocations := by
  rw [Waiting.finish, resolve_of_settled (s := { s with timeout := none }) h]
  exact ⟨rfl, rfl⟩

variable (l : Limits)

def Waiting.loopHead (s : Waiting ε) (thrown : Option ε) : Waiting ε :=
  if (s.i : WithTop ℚ) ≤ l.maxAttempts then
    if s.resolved then s.return_ else s.invoke thrown
  else s.finish (-l.maxAttempts.untopD 0)

theorem loopHead_of_allowed {l : Limits} {s : Waiting ε} {thrown : Option ε}
    (h : (s.i : WithTop ℚ) ≤ l.maxAttempts) :
    s.loopHead l thrown = if s.resolved then s.return_ else s.invoke thrown := if_pos h

def Limits.timer (now : ℚ) : Option ℚ :=
  if l.NoDeadline then none else some (now + timerDelay (min (now + l.timeoutIn) l.timeoutOn))

/-- The call up to its first await. -/
def Waiting.call (s : Waiting ε) (thrown : Option ε) : Waiting ε :=
  if l.timeoutOn < s.clock then ({ s with executedTimeOnStart := s.clock }.resolve 0).return_
  else
    { s with executedTimeOnStart := s.clock, timeout := l.timer s.clock }.loopHead l thrown

/-- Either of the two checks of the clock. -/
def Waiting.PastDeadline (s : Waiting ε) : Prop :=
  l.timeoutOn < s.clock ∨ s.executedTimeOnStart + l.timeoutIn < s.clock

instance (s : Waiting ε) : Decidable (s.PastDeadline l) := inferInstanceAs (Decidable (_ ∨ _))

def Waiting.settle (s : Waiting ε) (ret : Except ε Ret) : Waiting ε :=
  match ret with
  | .error e => s.throw_ e
  | .ok ret =>
    if s.resolved then s.return_
    else if ret = .true then s.finish s.i
    else if ret = .CMDFLOW_DIE ∨ (s.i : WithTop ℚ) = l.maxAttempts then s.finish (-s.i)
    else if s.PastDeadline l then s.finish (-s.i)
    else { s with phase := .sleeping (s.clock + waitDelay l.ifFalseThenSleepForMs) }

def Waiting.wake (s : Waiting ε) (thrown : Option ε) : Waiting ε :=
  if s.PastDeadline l then s.finish (-s.i) else { s with i := s.i + 1 }.loopHead l thrown

def Waiting.onTimeout (s : Waiting ε) : Waiting ε :=
  { s with timeout := none, resolved := true }.resolve (-s.i)

/-! ## Events -/

inductive WaitEvent (ε : Type*) where
  | call (thrown : Option ε)
  | pass (ms : ℚ)
  | settle (ret : Except ε Ret)
  | wake (thrown : Option ε)
  | timeout

/-- A timer fires when it is due or later. -/
def Waiting.Enabled (s : Waiting ε) : WaitEvent ε → Prop
  | .call _ => s.phase = .notCalled
  | .pass ms => s.phase ≠ .notCalled ∧ 0 ≤ ms
  | .settle _ => s.phase = .awaitingCondition
  | .wake _ =>
    match s.phase with
    | .sleeping due => due ≤ s.clock
    | _ => False
  | .timeout =>
    match s.timeout with
    | some due => due ≤ s.clock
    | none => False

instance (s : Waiting ε) : (e : WaitEvent ε) → Decidable (s.Enabled e)
  | .call _ => inferInstanceAs (Decidable (_ = _))
  | .pass _ => inferInstanceAs (Decidable (_ ≠ _ ∧ _ ≤ _))
  | .settle _ => inferInstanceAs (Decidable (_ = _))
  | .wake _ =>
    match h : s.phase with
    | .sleeping due => decidable_of_iff (due ≤ s.clock) (by simp [Waiting.Enabled, h])
    | .notCalled | .awaitingCondition | .finished => isFalse (by simp [Waiting.Enabled, h])
  | .timeout =>
    match h : s.timeout with
    | some due => decidable_of_iff (due ≤ s.clock) (by simp [Waiting.Enabled, h])
    | none => isFalse (by simp [Waiting.Enabled, h])

def Waiting.next (s : Waiting ε) : WaitEvent ε → Waiting ε
  | .call thrown => s.call l thrown
  | .pass ms => { s with clock := s.clock + ms }
  | .settle ret => s.settle l ret
  | .wake thrown => s.wake l thrown
  | .timeout => s.onTimeout

def machine (ε : Type*) : Machine (Waiting ε) (WaitEvent ε) := ⟨Waiting.Enabled, Waiting.next l⟩

instance (s : Waiting ε) (e : WaitEvent ε) : Decidable ((machine l ε).Enabled s e) :=
  inferInstanceAs (Decidable (s.Enabled e))

end WaitForCondition
