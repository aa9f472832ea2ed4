import NodeSrt.AsyncApi
import NodeSrt.OrderedPort

/-! # What each step of AsyncSRT can do

One lemma for each way a call can go and one for each handler. The invariants are
derived from these and unfold no function of the class. -/
namespace AsyncApi

open AsyncValues
open TransitionSystem

variable {κ : Type*}

theorem exec_executed (s : AsyncSRT κ) {data : AsyncSRTWorkerPost}
    (h : anyUndefined data.args = false) (o : Outcome) :
    (s.exec data o).executed = s.executed ++ [(data, o)] := by
  simp [AsyncSRT.exec, h]

def ReachesPost (s : AsyncSRT κ) (c : ApiCall) : Prop :=
  c.earlyError = none ∧ s.worker = true ∧ s.startedToDispose = false ∧
    anyUndefined c.post.args = false

/-- The arguments can be traced, and `postMessage` sends them. -/
def Sendable (detached : Finset ArrayBuffer) (args : List JSValue) : Prop :=
  args.all JSValue.hasText ∧ Postable detached args

def Accepts (s : AsyncSRT κ) (c : ApiCall) : Prop :=
  ReachesPost s c ∧ Sendable s.detached c.post.args

def PostThrows (s : AsyncSRT κ) (c : ApiCall) : Prop :=
  ReachesPost s c ∧ c.post.args.all JSValue.hasText ∧ ¬ Postable s.detached c.post.args

def TraceThrows (s : AsyncSRT κ) (c : ApiCall) : Prop :=
  ReachesPost s c ∧ c.post.args.all JSValue.hasText = false

instance (s : AsyncSRT κ) (c : ApiCall) : Decidable (ReachesPost s c) :=
  inferInstanceAs (Decidable (_ ∧ _ ∧ _ ∧ _))

instance (detached : Finset ArrayBuffer) (args : List JSValue) :
    Decidable (Sendable detached args) :=
  inferInstanceAs (Decidable (_ ∧ _))

instance (s : AsyncSRT κ) (c : ApiCall) : Decidable (Accepts s c) :=
  inferInstanceAs (Decidable (_ ∧ _))

instance (s : AsyncSRT κ) (c : ApiCall) : Decidable (PostThrows s c) :=
  inferInstanceAs (Decidable (_ ∧ _ ∧ _))

instance (s : AsyncSRT κ) (c : ApiCall) : Decidable (TraceThrows s c) :=
  inferInstanceAs (Decidable (_ ∧ _))

/-- The counter bump, the timer and the queued callback, which precede `postMessage`. -/
def AsyncSRT.prepare (s : AsyncSRT κ) (c : ApiCall) (callback : Bool) (waiter : κ) :
    AsyncSRT κ :=
  { s with
    lockLevel := s.lockLevel + 1
    nextCall := s.nextCall + 1
    timeout := if c.useTimeout then
      Function.update s.timeout s.nextCall (some ⟨c.timeoutMs, c.post⟩) else s.timeout
    workCbQueue := s.workCbQueue ++ [⟨s.nextCall, waiter, callback, c.useTimeout⟩] }

def AsyncSRT.accept (s : AsyncSRT κ) (c : ApiCall) (callback : Bool) (waiter : κ) :
    AsyncSRT κ :=
  { s.prepare c callback waiter with
    toWorker := s.toWorker ++ [c.post]
    detached := s.detached ∪ (movedBuffers c.post.args).toFinset
    posted := s.posted ++ [(⟨s.nextCall, waiter, callback, c.useTimeout⟩, c.post)] }

/-- The state after a call that cannot be traced: it is counted, and its timer is armed. -/
def AsyncSRT.lose (s : AsyncSRT κ) (c : ApiCall) : AsyncSRT κ :=
  { s with
    lockLevel := s.lockLevel + 1
    untraced := s.untraced ++ [if c.useTimeout then some ⟨c.timeoutMs, c.post⟩ else none] }

/-- What a call that does not get as far as `_postAsyncWork` hands back. -/
def AsyncSRT.earlyReturn (s : AsyncSRT κ) (c : ApiCall) : CallReturn :=
  match c.earlyError with
  | some e => .threw e
  | none =>
    if s.worker = false then .rejectedPromise .disposedOnCall
    else if s.startedToDispose then .undefined
    else .threw (undefinedError s.detached c.post)

theorem apiCall_of_early {s : AsyncSRT κ} {c : ApiCall} (h : ¬ ReachesPost s c)
    (callback : Bool) (waiter : κ) :
    ∃ n, s.apiCall c callback waiter =
      (s.recordWrite (c.writeFrame n (s.earlyReturn c)), s.earlyReturn c) := by
  cases he : c.earlyError with
  | some e => exact ⟨.undefined, by simp [AsyncSRT.apiCall, AsyncSRT.earlyReturn, he]⟩
  | none =>
    refine ⟨c.byteLength s.detached, ?_⟩
    simp only [ReachesPost, he, true_and, not_and, Bool.not_eq_false] at h
    cases hw : s.worker with
    | false =>
      simp [AsyncSRT.apiCall, AsyncSRT.createAsyncWorkPromise, AsyncSRT.isDisposed,
        AsyncSRT.earlyReturn, he, hw]
    | true =>
      cases hd : s.startedToDispose with
      | true =>
        simp [AsyncSRT.apiCall, AsyncSRT.createAsyncWorkPromise, AsyncSRT.isDisposed,
          AsyncSRT.earlyReturn, he, hw, hd]
      | false =>
        have hu := h hw hd
        simp [AsyncSRT.apiCall, AsyncSRT.createAsyncWorkPromise, AsyncSRT.isDisposed,
          AsyncSRT.earlyReturn, AsyncSRT.recordWrite, he, hw, hd, hu]

theorem traceCallToString_eq_none {detached : Finset ArrayBuffer} {post : AsyncSRTWorkerPost} :
    traceCallToString detached post = none ↔ post.args.all JSValue.hasText = false := by
  rw [← traceCallToString_isSome detached, Option.isSome_eq_false_iff, Option.isNone_iff_eq_none]

theorem apiCall_of_accepts {s : AsyncSRT κ} {c : ApiCall} (h : Accepts s c)
    (callback : Bool) (waiter : κ) :
    s.apiCall c callback waiter =
      ((s.accept c callback waiter).recordWrite
        (c.writeFrame (c.byteLength s.detached) (.promise s.nextCall)),
        .promise s.nextCall) := by
  obtain ⟨⟨he, hw, hd, hu⟩, ht, hp⟩ := h
  have htrace : traceCallToString s.detached c.post ≠ none := by
    simp [traceCallToString_eq_none, ht]
  simp [AsyncSRT.apiCall, AsyncSRT.createAsyncWorkPromise, AsyncSRT.executor,
    AsyncSRT.postAsyncWork, AsyncSRT.isDisposed, AsyncSRT.accept, AsyncSRT.prepare,
    AsyncSRT.recordWrite, he, hw, hd, hu, htrace, hp]

/-- A throwing `postMessage` rejects the promise and leaves all that was prepared. -/
theorem apiCall_of_throws {s : AsyncSRT κ} {c : ApiCall} (h : PostThrows s c)
    (callback : Bool) (waiter : κ) :
    s.apiCall c callback waiter =
      (((s.prepare c callback waiter).settle s.nextCall (.rejected .dataClone)).recordWrite
        (c.writeFrame (c.byteLength s.detached) (.promise s.nextCall)),
        .promise s.nextCall) := by
  obtain ⟨⟨he, hw, hd, hu⟩, ht, hp⟩ := h
  have htrace : traceCallToString s.detached c.post ≠ none := by
    simp [traceCallToString_eq_none, ht]
  simp [AsyncSRT.apiCall, AsyncSRT.createAsyncWorkPromise, AsyncSRT.executor,
    AsyncSRT.postAsyncWork, AsyncSRT.isDisposed, AsyncSRT.prepare, AsyncSRT.settle,
    AsyncSRT.recordWrite, he, hw, hd, hu, htrace, hp]

/-- A call that cannot be traced leaves the counter bumped and its timer armed. -/
theorem apiCall_of_untraced {s : AsyncSRT κ} {c : ApiCall} (h : TraceThrows s c)
    (callback : Bool) (waiter : κ) :
    s.apiCall c callback waiter =
      ((s.lose c).recordWrite
        (c.writeFrame (c.byteLength s.detached) (.rejectedPromise .typeError)),
        .rejectedPromise .typeError) := by
  obtain ⟨⟨he, hw, hd, hu⟩, ht⟩ := h
  have htrace : traceCallToString s.detached c.post = none := traceCallToString_eq_none.mpr ht
  simp [AsyncSRT.apiCall, AsyncSRT.createAsyncWorkPromise, AsyncSRT.executor,
    AsyncSRT.postAsyncWork, AsyncSRT.isDisposed, AsyncSRT.lose, AsyncSRT.recordWrite, he, hw,
    hd, hu, htrace]

theorem Accepts.not_throws {s : AsyncSRT κ} {c : ApiCall} (h : Accepts s c) :
    ¬ PostThrows s c := fun ht => ht.2.2 h.2.2

theorem call_cases (s : AsyncSRT κ) (c : ApiCall) :
    ¬ ReachesPost s c ∨ Accepts s c ∨ PostThrows s c ∨ TraceThrows s c := by
  by_cases h : ReachesPost s c
  · cases ht : c.post.args.all JSValue.hasText with
    | true =>
      by_cases hp : Postable s.detached c.post.args
      · exact Or.inr (Or.inl ⟨h, ht, hp⟩)
      · exact Or.inr (Or.inr (Or.inl ⟨h, ht, hp⟩))
    | false => exact Or.inr (Or.inr (Or.inr ⟨h, ht⟩))
  · exact Or.inl h

theorem onResult_eq (s : AsyncSRT κ) (cb : OnResult κ) (result : ReturnValue) :
    s.onResult cb result =
      { s with
        timeout := if s.rejected cb.call = false ∧ cb.useTimeout then
          Function.update s.timeout cb.call none else s.timeout
        promise := if s.rejected cb.call then s.promise
          else settled s.promise cb.call (.fulfilled result)
        running := if cb.callback then some (cb, s.rejected cb.call) else s.running
        callbacks := if cb.callback then s.callbacks ++ [(cb.call, result)] else s.callbacks
        lockLevel := if cb.callback ∨ s.rejected cb.call then s.lockLevel
          else s.lockLevel - 1 } := by
  cases hr : s.rejected cb.call <;> cases hc : cb.callback <;>
    simp [AsyncSRT.onResult, AsyncSRT.enterCallback, AsyncSRT.finishOnResult,
      AsyncSRT.settle, hr, hc]

theorem deliver_of_disposed {s : AsyncSRT κ} (h : s.worker = false)
    (data : AsyncSRTWorkerMessage) :
    s.deliver data = { s with toMain := s.toMain.tail, answered := s.answered + 1 } := by
  simp [AsyncSRT.deliver, AsyncSRT.onWorkerMessage, AsyncSRT.isDisposed, h]

theorem deliver_of_queue {s : AsyncSRT κ} (h : s.worker = true) {cb : OnResult κ}
    {ks : List (OnResult κ)} (hq : s.workCbQueue = cb :: ks) (data : AsyncSRTWorkerMessage) :
    s.deliver data =
      { s with
        toMain := s.toMain.tail
        answered := s.answered + 1
        workCbQueue := ks
        error := data.err <|> s.error }.onResult cb data.result := by
  simp [AsyncSRT.deliver, AsyncSRT.onWorkerMessage, AsyncSRT.isDisposed, h, hq]

theorem deliver_frame (s : AsyncSRT κ) (data : AsyncSRTWorkerMessage) :
    ((s.deliver data).posted, (s.deliver data).worker, (s.deliver data).startedToDispose,
      (s.deliver data).detached, (s.deliver data).executed, (s.deliver data).writes,
      (s.deliver data).toWorker, (s.deliver data).nextCall) =
    (s.posted, s.worker, s.startedToDispose, s.detached, s.executed, s.writes, s.toWorker,
      s.nextCall) := by
  cases hw : s.worker with
  | false => simp [deliver_of_disposed hw, hw]
  | true =>
    cases hq : s.workCbQueue with
    | nil => simp [AsyncSRT.deliver, AsyncSRT.onWorkerMessage, AsyncSRT.isDisposed, hw, hq]
    | cons cb ks => simp [deliver_of_queue hw hq, onResult_eq, hw]

/-- `dispose` does nothing, or starts to wait, or goes on to terminate the worker. -/
theorem dispose_cases (s : AsyncSRT κ) :
    (s.startedToDispose = true ∧ s.dispose = s) ∨
    (s.startedToDispose = false ∧ 0 < s.lockLevel ∧
      s.dispose = { s with startedToDispose := true, disposing := .waiting }) ∨
    (s.startedToDispose = false ∧ s.lockLevel ≤ 0 ∧
      s.dispose = { s with startedToDispose := true }.terminateWorker) := by
  cases hd : s.startedToDispose with
  | true => exact Or.inl ⟨rfl, by simp [AsyncSRT.dispose, hd]⟩
  | false =>
    by_cases hl : 0 < s.lockLevel
    · exact Or.inr (Or.inl ⟨rfl, hl, by simp [AsyncSRT.dispose, hd, hl]⟩)
    · exact Or.inr (Or.inr ⟨rfl, by omega, by simp [AsyncSRT.dispose, hd, hl]⟩)

theorem terminateWorker_eq {s : AsyncSRT κ} (h : s.worker = true) :
    s.terminateWorker =
      { s with
        worker := false
        flushed := s.flushed ++ s.workCbQueue.map fun cb : OnResult κ =>
          (cb.call, s.rejected cb.call)
        workCbQueue := []
        disposing := .terminating
        terminations := s.terminations ++ [s.unsettled] } := by
  simp [AsyncSRT.terminateWorker, h]

/-! ## What is left as it was -/

/-- The calls that were made, and what the worker has made of them, are the same. -/
structure SameHistory (s t : AsyncSRT κ) : Prop where
  posted : t.posted = s.posted
  executed : t.executed = s.executed
  writes : t.writes = s.writes
  detached : t.detached = s.detached
  untraced : t.untraced = s.untraced
  nextCall : t.nextCall = s.nextCall

theorem SameHistory.refl (s : AsyncSRT κ) : SameHistory s s := ⟨rfl, rfl, rfl, rfl, rfl, rfl⟩

theorem terminateWorker_sameHistory (s : AsyncSRT κ) : SameHistory s s.terminateWorker := by
  cases hw : s.worker <;> constructor <;> simp [AsyncSRT.terminateWorker, hw]

theorem dispose_sameHistory (s : AsyncSRT κ) : SameHistory s s.dispose := by
  rcases dispose_cases s with ⟨_, e⟩ | ⟨_, _, e⟩ | ⟨_, _, e⟩ <;> rw [e]
  · exact .refl s
  · exact ⟨rfl, rfl, rfl, rfl, rfl, rfl⟩
  · obtain ⟨hp, hx, hw, hd, hu, hn⟩ :=
      terminateWorker_sameHistory { s with startedToDispose := true }
    exact ⟨hp, hx, hw, hd, hu, hn⟩

theorem deliver_sameHistory (s : AsyncSRT κ) (data : AsyncSRTWorkerMessage) :
    SameHistory s (s.deliver data) := by
  cases hw : s.worker with
  | false =>
    rw [deliver_of_disposed hw]
    exact ⟨rfl, rfl, rfl, rfl, rfl, rfl⟩
  | true =>
    cases hq : s.workCbQueue with
    | nil =>
      simp only [AsyncSRT.deliver, AsyncSRT.onWorkerMessage, AsyncSRT.isDisposed, hw, hq]
      exact ⟨rfl, rfl, rfl, rfl, rfl, rfl⟩
    | cons cb ks =>
      rw [deliver_of_queue hw hq, onResult_eq]
      exact ⟨rfl, rfl, rfl, rfl, rfl, rfl⟩

/-- Neither a call nor a native call of the worker. -/
def Event.isQuiet : Event κ → Bool
  | .call _ _ _ | .exec _ => false
  | .dispose | .deliver | .callbackReturn _ | .timer _ | .pollDispose | .resumeDispose
  | .exited _ => true

/-- Only calls and the worker add to the history. -/
theorem next_sameHistory {s : AsyncSRT κ} {e : Event κ} (he : e.isQuiet = true) :
    SameHistory s (next s e) := by
  cases e with
  | call c callback waiter => cases he
  | exec o => cases he
  | dispose => exact dispose_sameHistory s
  | deliver =>
    simp only [next]
    split
    · exact deliver_sameHistory s _
    · exact .refl s
  | callbackReturn threw => simp only [next]; split <;> exact ⟨rfl, rfl, rfl, rfl, rfl, rfl⟩
  | timer k => simp only [next]; split <;> exact ⟨rfl, rfl, rfl, rfl, rfl, rfl⟩
  | pollDispose => simp only [next]; split <;> exact ⟨rfl, rfl, rfl, rfl, rfl, rfl⟩
  | resumeDispose => exact terminateWorker_sameHistory s
  | exited code => exact ⟨rfl, rfl, rfl, rfl, rfl, rfl⟩

def Event.isExec : Event κ → Bool
  | .exec _ => true
  | _ => false

theorem executed_of_not_exec {s : AsyncSRT κ} {e : Event κ} (he : e.isExec = false) :
    (next s e).executed = s.executed := by
  cases e with
  | call c callback waiter =>
    rcases call_cases s c with h | h | h | h
    · obtain ⟨n, eq⟩ := apiCall_of_early h callback waiter
      simp only [next, eq, AsyncSRT.recordWrite]
    · simp only [next, apiCall_of_accepts h, AsyncSRT.recordWrite, AsyncSRT.accept,
        AsyncSRT.prepare]
    · simp only [next, apiCall_of_throws h, AsyncSRT.recordWrite, AsyncSRT.settle,
        AsyncSRT.prepare]
    · simp only [next, apiCall_of_untraced h, AsyncSRT.recordWrite, AsyncSRT.lose]
  | exec o => cases he
  | _ => exact (next_sameHistory rfl).executed

def Traces (s : AsyncSRT κ) : Event κ → Prop
  | .call c _ _ => ¬ TraceThrows s c
  | _ => True

theorem untraced_next {s : AsyncSRT κ} {e : Event κ} (h : Traces s e) :
    (next s e).untraced = s.untraced := by
  cases e with
  | call c callback waiter =>
    rcases call_cases s c with hc | hc | hc | hc
    · obtain ⟨n, eq⟩ := apiCall_of_early hc callback waiter
      simp only [next, eq, AsyncSRT.recordWrite]
    · simp only [next, apiCall_of_accepts hc, AsyncSRT.recordWrite, AsyncSRT.accept,
        AsyncSRT.prepare]
    · simp only [next, apiCall_of_throws hc, AsyncSRT.recordWrite, AsyncSRT.settle,
        AsyncSRT.prepare]
    · exact absurd hc h
  | exec o => simp only [next]; split <;> rfl
  | _ => exact (next_sameHistory rfl).untraced

/-- AsyncSRT where each call has arguments with a text. -/
def tracingMachine (κ : Type*) : Machine (AsyncSRT κ) (Event κ) := (machine κ).restrict Traces

theorem untraced_execution {s t : AsyncSRT κ} (h : (tracingMachine κ).Execution s t) :
    t.untraced = s.untraced :=
  h.invariant (I := fun u => u.untraced = s.untraced) rfl fun _ _ hu he =>
    (untraced_next he.2).trans hu

end AsyncApi
