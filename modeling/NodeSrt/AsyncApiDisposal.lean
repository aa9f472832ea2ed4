import NodeSrt.AsyncApiInvariant

/-! # Disposal and failed calls of AsyncSRT

`dispose` waits on the outstanding-call counter, so it is only as good as the counter is.
While posting does not throw the counter is exact. A `postMessage` that throws leaves a
callback in the queue, the counter raised and the timer armed. So does a call that cannot be
traced, but for the callback. -/
namespace AsyncApi

open AsyncValues
open TransitionSystem

variable {κ : Type*}

/-- Between handlers the counter is the number of accepted calls not yet settled, if each call
had arguments with a text, as their declared types have. The worker is terminated at most once,
when there are none. What the flush drops has timed out. -/
theorem dispose_spares_accepted_calls {s : AsyncSRT κ}
    (h : (postingMachine κ).Execution initial s) :
    (s.running = none → s.untraced = [] → s.lockLevel = s.unsettled.card) ∧ 0 ≤ s.lockLevel ∧
      s.terminations.length ≤ 1 ∧ (∀ unsettled ∈ s.terminations, unsettled = ∅) ∧
      ∀ x ∈ s.flushed, x.2 = true ∧ x.1 ∈ s.accepted ∧
        ∃ ms post, s.promise x.1 = .rejected (.timeoutExceeded ms post) := by
  obtain ⟨hc, hs, hd⟩ := execution_invariant h initial_invariant
  refine ⟨?_, hd.nonneg, ?_, ?_, ?_⟩
  · intro hrun htraced
    simpa [hrun, runningShare, htraced] using hd.counter
  · rw [hd.terminated]
    split <;> simp
  · rw [hd.terminated]
    split <;> simp
  · intro x hx
    obtain ⟨hlate, hrej⟩ := hd.timedOut x hx
    obtain ⟨ms, p, hp, _, hpr⟩ := hs.late x.1 hrej
    refine ⟨hlate, ?_, ms, p.2, hpr⟩
    have hlt := (List.getElem?_eq_some_iff.mp hp).1
    rw [hc.accepted, Finset.mem_range, ← hc.posted_length]
    exact hlt

/-- An accept times out, its late callback disposes of the instance, and the worker goes. -/
def timedOutAccept : List (Event Unit) :=
  [.call (.accept (.number 1) true 10) true (), .call (.close (.number 1)) true (), .timer 0,
    .exec (.ok (.number 7)), .dispose, .pollDispose, .deliver, .callbackReturn true,
    .exec (.error ⟨[]⟩), .deliver, .callbackReturn false, .pollDispose, .resumeDispose,
    .exited 0]

theorem dispose_spares_accepted_calls_timedOutAccept :
    let s := (postingMachine Unit).runTrace initial timedOutAccept
    (s.running = none → s.untraced = [] → s.lockLevel = s.unsettled.card) ∧ 0 ≤ s.lockLevel ∧
      s.terminations.length ≤ 1 ∧ (∀ unsettled ∈ s.terminations, unsettled = ∅) ∧
      ∀ x ∈ s.flushed, x.2 = true ∧ x.1 ∈ s.accepted ∧
        ∃ ms post, s.promise x.1 = .rejected (.timeoutExceeded ms post) :=
  dispose_spares_accepted_calls
    ((postingMachine Unit).execution_of_trace _ timedOutAccept (by decide))

/-! ## Calls that fail before they reach the worker -/

def Unsent (s : AsyncSRT κ) (c : ApiCall) (callback : Bool) (waiter : κ) : Prop :=
  (s.apiCall c callback waiter).1.toWorker = s.toWorker

instance (s : AsyncSRT κ) (c : ApiCall) (callback : Bool) (waiter : κ) :
    Decidable (Unsent s c callback waiter) := inferInstanceAs (Decidable (_ = _))

def Fails (s : AsyncSRT κ) (c : ApiCall) (callback : Bool) (waiter : κ) : Prop :=
  match (s.apiCall c callback waiter).2 with
  | .threw _ | .rejectedPromise _ => True
  | .promise k => ∃ e, (s.apiCall c callback waiter).1.promise k = .rejected e
  | .undefined => False

structure LeavesState (s : AsyncSRT κ) (c : ApiCall) (callback : Bool) (waiter : κ) : Prop where
  queue : (s.apiCall c callback waiter).1.workCbQueue = s.workCbQueue
  counter : (s.apiCall c callback waiter).1.lockLevel = s.lockLevel
  timers : (s.apiCall c callback waiter).1.timeout = s.timeout
  untraced : (s.apiCall c callback waiter).1.untraced = s.untraced

/-- The messages posted to the worker the instance holds and not yet answered. -/
def AsyncSRT.unanswered (s : AsyncSRT κ) : ℕ :=
  if s.worker then s.toWorker.length + s.toMain.length else 0

theorem leaves_state_of_early {s : AsyncSRT κ} {c : ApiCall} (h : ¬ ReachesPost s c)
    (callback : Bool) (waiter : κ) : LeavesState s c callback waiter := by
  obtain ⟨n, e⟩ := apiCall_of_early h callback waiter
  constructor <;> rw [e] <;> rfl

theorem not_leaves_state_of_throws {s : AsyncSRT κ} {c : ApiCall} (h : PostThrows s c)
    (callback : Bool) (waiter : κ) : ¬ LeavesState s c callback waiter := by
  intro hl
  have := hl.counter
  rw [apiCall_of_throws h] at this
  simp only [AsyncSRT.recordWrite, AsyncSRT.settle, AsyncSRT.prepare] at this
  omega

theorem not_leaves_state_of_untraced {s : AsyncSRT κ} {c : ApiCall} (h : TraceThrows s c)
    (callback : Bool) (waiter : κ) : ¬ LeavesState s c callback waiter := by
  intro hl
  have := hl.counter
  rw [apiCall_of_untraced h] at this
  simp only [AsyncSRT.recordWrite, AsyncSRT.lose] at this
  omega

theorem not_unsent_of_accepts {s : AsyncSRT κ} {c : ApiCall} (h : Accepts s c)
    (callback : Bool) (waiter : κ) : ¬ Unsent s c callback waiter := by
  intro hu
  rw [Unsent, apiCall_of_accepts h] at hu
  simp [AsyncSRT.recordWrite, AsyncSRT.accept] at hu

theorem queue_matches_port {s : AsyncSRT κ} (h : Correlated s) :
    s.workCbQueue.length = s.unanswered := by
  cases hw : s.worker with
  | false => simp [AsyncSRT.unanswered, hw, h.dropped hw]
  | true =>
    have ho := h.transit.outstanding
    rw [List.length_map] at ho
    simp [AsyncSRT.unanswered, hw, h.waiting hw, ho]

/-- An unsent call leaves the queue, the counter and the timers as they were if and only
if neither `traceCallToString` nor `postMessage` threw; and as long as `postMessage` never
throws, the queued callbacks are as many as the unanswered messages. -/
theorem unsent_call_leaves_state_iff :
    (∀ (s : AsyncSRT κ) c callback waiter, Reachable s → Unsent s c callback waiter →
      (LeavesState s c callback waiter ↔ ¬ TraceThrows s c ∧ ¬ PostThrows s c)) ∧
    ∀ s : AsyncSRT κ, (postingMachine κ).Execution initial s →
      s.workCbQueue.length = s.unanswered := by
  constructor
  · intro s c callback waiter _ hu
    rcases call_cases s c with he | ha | ht | ht
    · exact iff_of_true (leaves_state_of_early he callback waiter)
        ⟨fun ht => he ht.1, fun ht => he ht.1⟩
    · exact absurd hu (not_unsent_of_accepts ha callback waiter)
    · exact iff_of_false (not_leaves_state_of_throws ht callback waiter) fun hn => hn.2 ht
    · exact iff_of_false (not_leaves_state_of_untraced ht callback waiter) fun hn => hn.1 ht
  · intro s h
    exact queue_matches_port (execution_invariant h initial_invariant).correlated

/-- The same chunk is written twice: the first call detaches its buffer. -/
def rewrittenChunk : ApiCall := .write (.number 1) (.bytes ⟨true, ⟨0, .moved⟩, [1, 2]⟩)

def afterFirstWrite : AsyncSRT Unit :=
  (machine Unit).runTrace initial [.call rewrittenChunk false ()]

theorem unsent_call_leaves_state_close :
    LeavesState (initial : AsyncSRT Unit) (.close .undefined) true () ∧
      afterFirstWrite.workCbQueue.length = afterFirstWrite.unanswered :=
  ⟨(unsent_call_leaves_state_iff.1 initial (.close .undefined) true () (.refl _) rfl).mpr
    (by decide),
  unsent_call_leaves_state_iff.2 afterFirstWrite
    ((postingMachine Unit).execution_of_trace _ [.call rewrittenChunk false ()] (by decide))⟩

/-- The second write rejects without a message, but its callback and count stay. -/
theorem failed_call_changes_state :
    ¬ ∀ (s : AsyncSRT Unit) c callback waiter, Reachable s → Unsent s c callback waiter →
      Fails s c callback waiter → LeavesState s c callback waiter := by
  intro h
  have hr : Reachable afterFirstWrite :=
    (machine Unit).execution_of_trace _ [.call rewrittenChunk false ()] (by decide)
  have hl := h afterFirstWrite rewrittenChunk false () hr (by decide)
    (show ∃ e, _ = Settlement.rejected e from ⟨.dataClone, by decide⟩)
  exact absurd hl.counter (by decide)

end AsyncApi
