import NodeSrt.AsyncApiInvariant

/-! # What a fulfilled write means

`write` returns the length it read before the request, gated on the awaited result not
being SRT_ERROR. While the instance is disposing the awaited value is `undefined`, which
passes the gate although nothing was posted. -/
namespace AsyncApi

open AsyncValues
open TransitionSystem
open OrderedPort

variable {κ : Type*}

def WritesUndisposed (s : AsyncSRT κ) : Event κ → Prop
  | .call (.write _ _) _ _ => ¬ (s.worker = true ∧ s.startedToDispose = true)
  | _ => True

instance (s : AsyncSRT κ) : (e : Event κ) → Decidable (WritesUndisposed s e)
  | .call c _ _ =>
    match c with
    | .write _ _ => inferInstanceAs (Decidable (¬ (_ ∧ _)))
    | .createSocket _ | .bind _ _ _ | .listen _ _ | .connect _ _ _ | .accept _ _ _ | .close _
    | .read _ _ | .setSockFlag _ _ _ | .getSockFlag _ _ | .getSockState _ | .epollCreate
    | .epollAddUsock _ _ _ | .epollUWait _ _ | .setLogLevel _ | .stats _ _ => isTrue trivial
  | .dispose | .exec _ | .deliver | .callbackReturn _ | .timer _ | .pollDispose
  | .resumeDispose | .exited _ => isTrue trivial

/-- Posting does not throw and no write meets a disposing instance. -/
def SendsWrites (s : AsyncSRT κ) (e : Event κ) : Prop := Posts s e ∧ WritesUndisposed s e

instance (s : AsyncSRT κ) (e : Event κ) : Decidable (SendsWrites s e) :=
  inferInstanceAs (Decidable (_ ∧ _))

/-- Every recorded write awaits the call that posted its chunk, or has failed early. -/
structure Written (s : AsyncSRT κ) : Prop where
  awaited : ∀ w ∈ s.writes, w.awaited ≠ .undefined
  posted : ∀ w ∈ s.writes, ∀ k, w.awaited = .promise k →
    ∃ p, s.posted[k]? = some p ∧ p.2 = ⟨.write, [w.socket, w.chunk]⟩ ∧ p.1.useTimeout = false ∧
      ∀ v, w.chunk = .bytes v → w.byteLength = .number v.data.length

theorem initial_written : Written (initial : AsyncSRT κ) := by
  constructor <;> simp [initial]

structure Extends (s t : AsyncSRT κ) : Prop where
  posted : s.posted <+: t.posted
  executed : s.executed <+: t.executed
  writes : s.writes <+: t.writes

theorem Extends.refl (s : AsyncSRT κ) : Extends s s :=
  ⟨List.prefix_refl _, List.prefix_refl _, List.prefix_refl _⟩

theorem Extends.trans {s t u : AsyncSRT κ} (h : Extends s t) (k : Extends t u) : Extends s u :=
  ⟨h.posted.trans k.posted, h.executed.trans k.executed, h.writes.trans k.writes⟩

theorem SameHistory.extends {s t : AsyncSRT κ} (h : SameHistory s t) : Extends s t :=
  ⟨h.posted ▸ List.prefix_refl _, h.executed ▸ List.prefix_refl _, h.writes ▸ List.prefix_refl _⟩

def Event.isWrite : Event κ → Bool
  | .call (.write _ _) _ _ => true
  | _ => false

/-- No step drops a history entry, and only calls of `write` touch the writes. -/
theorem step_extends (s : AsyncSRT κ) (e : Event κ) :
    Extends s (next s e) ∧ (e.isWrite = false → (next s e).writes = s.writes) := by
  cases e with
  | call c callback waiter =>
    have frame : ∀ n r, Event.isWrite (.call c callback waiter) = false →
        s.writes ++ c.writeFrame n r = s.writes := by
      intro n r h
      cases c with
      | write socket chunk => cases h
      | _ => simp [ApiCall.writeFrame]
    rcases call_cases s c with h | h | h | h
    · obtain ⟨n, eq⟩ := apiCall_of_early h callback waiter
      simp only [next, eq, AsyncSRT.recordWrite]
      exact ⟨⟨List.prefix_refl _, List.prefix_refl _, List.prefix_append _ _⟩, frame n _⟩
    · simp only [next, apiCall_of_accepts h, AsyncSRT.recordWrite, AsyncSRT.accept,
        AsyncSRT.prepare]
      exact ⟨⟨List.prefix_append _ _, List.prefix_refl _, List.prefix_append _ _⟩, frame _ _⟩
    · simp only [next, apiCall_of_throws h, AsyncSRT.recordWrite, AsyncSRT.settle,
        AsyncSRT.prepare]
      exact ⟨⟨List.prefix_refl _, List.prefix_refl _, List.prefix_append _ _⟩, frame _ _⟩
    · simp only [next, apiCall_of_untraced h, AsyncSRT.recordWrite, AsyncSRT.lose]
      exact ⟨⟨List.prefix_refl _, List.prefix_refl _, List.prefix_append _ _⟩, frame _ _⟩
  | exec o =>
    simp only [next]
    split
    · refine ⟨⟨List.prefix_refl _, ?_, List.prefix_refl _⟩, fun _ => rfl⟩
      simp only [AsyncSRT.exec]
      split
      · exact List.prefix_refl _
      · exact List.prefix_append _ _
    · exact ⟨.refl s, fun _ => rfl⟩
  | _ => exact ⟨(next_sameHistory rfl).extends, fun _ => (next_sameHistory rfl).writes⟩

theorem execution_extends {s t : AsyncSRT κ} (h : (machine κ).Execution s t) : Extends s t :=
  h.invariant (I := Extends s) (.refl s) fun u e hu _ => hu.trans (step_extends u e).1

theorem settled_stable (promise : ℕ → Settlement) (i k : ℕ) (st : Settlement)
    (h : promise k ≠ .pending) : settled promise i st k = promise k := by
  unfold settled
  split
  · rename_i hi
    have hne : k ≠ i := fun he => h (he ▸ hi)
    exact Function.update_of_ne hne _ _
  · rfl

/-- A promise settles once. -/
theorem step_promise_stable {s : AsyncSRT κ} {e : Event κ} {k : ℕ} (h : s.promise k ≠ .pending) :
    (next s e).promise k = s.promise k := by
  cases e with
  | call c callback waiter =>
    rcases call_cases s c with hc | hc | hc | hc
    · obtain ⟨n, eq⟩ := apiCall_of_early hc callback waiter
      simp only [next, eq, AsyncSRT.recordWrite]
    · simp only [next, apiCall_of_accepts hc, AsyncSRT.recordWrite, AsyncSRT.accept,
        AsyncSRT.prepare]
    · simp only [next, apiCall_of_throws hc, AsyncSRT.recordWrite, AsyncSRT.settle,
        AsyncSRT.prepare]
      exact settled_stable _ _ _ _ h
    · simp only [next, apiCall_of_untraced hc, AsyncSRT.recordWrite, AsyncSRT.lose]
  | dispose =>
    rcases dispose_cases s with ⟨_, eq⟩ | ⟨_, _, eq⟩ | ⟨_, _, eq⟩ <;> simp only [next, eq]
    cases s.worker <;> simp [AsyncSRT.terminateWorker]
  | exec o => simp only [next]; split <;> rfl
  | deliver =>
    simp only [next]
    split
    · cases hw : s.worker with
      | false => rw [deliver_of_disposed hw]
      | true =>
        cases hq : s.workCbQueue with
        | nil => simp [AsyncSRT.deliver, AsyncSRT.onWorkerMessage, AsyncSRT.isDisposed, hw, hq]
        | cons cb ks =>
          rw [deliver_of_queue hw hq, onResult_eq]
          dsimp only
          split
          · rfl
          · exact settled_stable _ _ _ _ h
    · rfl
  | callbackReturn threw => simp only [next]; split <;> rfl
  | timer i =>
    simp only [next]
    split
    · exact settled_stable _ _ _ _ h
    · rfl
  | pollDispose => simp only [next]; split <;> rfl
  | resumeDispose => cases hw : s.worker <;> simp [next, AsyncSRT.terminateWorker, hw]
  | exited code => rfl

theorem write_promise_stable {s t : AsyncSRT κ} (h : (machine κ).Execution s t) {w : WriteCall}
    (hw : w.promise s ≠ .pending) : w.promise t = w.promise s := by
  apply h.invariant (I := fun u => w.promise u = w.promise s) rfl
  intro u e hu _
  rw [← hu]
  rw [← hu] at hw
  cases ha : w.awaited with
  | promise k =>
    have hk : u.promise k ≠ .pending := fun hp => hw (by simp [WriteCall.promise, ha, hp])
    simp [WriteCall.promise, ha, show ((machine κ).next u e).promise k = u.promise k from
      step_promise_stable hk]
  | _ => simp [WriteCall.promise, ha]

theorem write_recorded (s : AsyncSRT κ) (socket chunk : JSValue) (callback : Bool) (waiter : κ) :
    ∃ n r, (s.apiCall (.write socket chunk) callback waiter).1.writes =
      s.writes ++ [⟨socket, chunk, n, r⟩] := by
  rcases call_cases s (.write socket chunk) with h | h | h | h
  · obtain ⟨n, eq⟩ := apiCall_of_early h callback waiter
    exact ⟨n, _, by rw [eq]; rfl⟩
  · exact ⟨_, _, by rw [apiCall_of_accepts h]; rfl⟩
  · exact ⟨_, _, by rw [apiCall_of_throws h]; rfl⟩
  · exact ⟨_, _, by rw [apiCall_of_untraced h]; rfl⟩

theorem Written.of_frame {s t : AsyncSRT κ} (h : Written s) (hp : s.posted <+: t.posted)
    (hw : t.writes = s.writes) : Written t where
  awaited w hmem := h.awaited w (hw ▸ hmem)
  posted w hmem k hk := by
    obtain ⟨p, hpos, hrest⟩ := h.posted w (hw ▸ hmem) k hk
    exact ⟨p, getElem?_of_prefix hp hpos, hrest⟩

/-- A `postMessage` that does not throw finds every buffer of its arguments attached. -/
theorem byteLength_of_postable {detached : Finset ArrayBuffer} {socket : JSValue} {v : BufferView}
    (h : Postable detached (ApiCall.write socket (.bytes v)).post.args) :
    v.byteLength detached = v.data.length := by
  have hv : v.buffer ∉ detached := (h.2.1 v.buffer (by
    simp only [ApiCall.post, extractTransferListFromParams, List.mem_filterMap]
    exact ⟨.bytes v, by simp, rfl⟩)).2
  simp [BufferView.byteLength, hv]

theorem Written.step_failed {s t : AsyncSRT κ} (h : Written s) (hp : s.posted <+: t.posted)
    {w : WriteCall} (hw : t.writes = s.writes ++ [w]) (hne : w.awaited ≠ .undefined)
    (hno : ∀ k, w.awaited ≠ .promise k) : Written t := by
  constructor
  · intro u hmem
    rw [hw] at hmem
    rcases List.mem_append.mp hmem with hmem | hmem
    · exact h.awaited u hmem
    · rw [List.mem_singleton.mp hmem]
      exact hne
  · intro u hmem k hk
    rw [hw] at hmem
    rcases List.mem_append.mp hmem with hmem | hmem
    · obtain ⟨p, hpos, hrest⟩ := h.posted u hmem k hk
      exact ⟨p, getElem?_of_prefix hp hpos, hrest⟩
    · rw [List.mem_singleton.mp hmem] at hk
      exact absurd hk (hno k)

theorem Written.step_write {s : AsyncSRT κ} (h : Written s) (hc : Correlated s)
    {socket chunk : JSValue} (hp : ¬ PostThrows s (.write socket chunk))
    (hd : ¬ (s.worker = true ∧ s.startedToDispose = true)) (callback : Bool) (waiter : κ) :
    Written (s.apiCall (.write socket chunk) callback waiter).1 := by
  rcases call_cases s (.write socket chunk) with he | ha | ht | ht
  · obtain ⟨n, e⟩ := apiCall_of_early he callback waiter
    have hr : s.earlyReturn (.write socket chunk) ≠ .undefined ∧
        ∀ k, s.earlyReturn (.write socket chunk) ≠ .promise k := by
      cases hw : s.worker <;> cases hs : s.startedToDispose <;>
        simp only [AsyncSRT.earlyReturn, hw, hs] <;> split <;> simp_all
    rw [e]
    exact h.step_failed (List.prefix_refl _) rfl hr.1 hr.2
  · rw [apiCall_of_accepts ha]
    simp only [AsyncSRT.recordWrite, ApiCall.writeFrame, AsyncSRT.accept, AsyncSRT.prepare]
    constructor
    · intro w hmem
      rcases List.mem_append.mp hmem with hmem | hmem
      · exact h.awaited w hmem
      · rw [List.mem_singleton.mp hmem]
        simp
    · intro w hmem k hk
      rcases List.mem_append.mp hmem with hmem | hmem
      · obtain ⟨p, hpos, hrest⟩ := h.posted w hmem k hk
        exact ⟨p, getElem?_of_prefix (List.prefix_append _ _) hpos, hrest⟩
      · have hw := List.mem_singleton.mp hmem
        subst hw
        obtain rfl : s.nextCall = k := by simpa using hk
        refine ⟨(⟨s.nextCall, waiter, callback, false⟩, ⟨.write, [socket, chunk]⟩), ?_, rfl, rfl,
          ?_⟩
        · simp [← hc.posted_length, ApiCall.useTimeout, ApiCall.post]
        intro v hv
        have hchunk : chunk = .bytes v := hv
        subst hchunk
        simp only [ApiCall.byteLength, byteLength_of_postable ha.2.2]
  · exact absurd ht hp
  · rw [apiCall_of_untraced ht]
    exact h.step_failed (List.prefix_refl _) rfl (by simp) (by simp)

theorem Written.step {s : AsyncSRT κ} (h : Written s) (hc : Correlated s) {e : Event κ}
    (he : SendsWrites s e) : Written (next s e) := by
  obtain ⟨hx, hframe⟩ := step_extends s e
  cases e with
  | call c callback waiter =>
    cases c with
    | write socket chunk => exact h.step_write hc he.1 he.2 callback waiter
    | _ => exact h.of_frame hx.posted (hframe rfl)
  | _ => exact h.of_frame hx.posted (hframe rfl)

/-- Both invariants along the runs in which every write that is not refused is sent. -/
def sendingMachine (κ : Type*) : Machine (AsyncSRT κ) (Event κ) :=
  (machine κ).restrict SendsWrites

instance (s : AsyncSRT κ) (e : Event κ) : Decidable ((sendingMachine κ).Enabled s e) :=
  inferInstanceAs (Decidable (Enabled s e ∧ SendsWrites s e))

structure Sending (s : AsyncSRT κ) : Prop where
  invariant : Invariant s
  written : Written s

theorem Sending.step {s : AsyncSRT κ} (h : Sending s) {e : Event κ}
    (he : (sendingMachine κ).Enabled s e) : Sending (next s e) :=
  ⟨step_preserves_invariant h.invariant ⟨he.1, he.2.1⟩,
    h.written.step h.invariant.correlated he.2⟩

theorem execution_sending {s : AsyncSRT κ} (h : (sendingMachine κ).Execution initial s) :
    Sending s :=
  h.invariant ⟨initial_invariant, initial_written⟩ fun _ _ hu he => hu.step he

/-- The worker executed the write and the native call did not return SRT_ERROR. -/
def Sent (s : AsyncSRT κ) (socket chunk : JSValue) : Prop :=
  ∃ r, (⟨.write, [socket, chunk]⟩, .ok r) ∈ s.executed ∧ r ≠ .number SRT_ERROR

/-- A write that meets a disposing instance posts nothing and fulfils at once. -/
theorem disposing_write_fulfils {s : AsyncSRT κ} (hw : s.worker = true)
    (hd : s.startedToDispose = true) (socket : JSValue) (v : BufferView) (callback : Bool)
    (waiter : κ) :
    let t := (s.apiCall (.write socket (.bytes v)) callback waiter).1
    t.toWorker = s.toWorker ∧ ∃ w ∈ t.writes, w.socket = socket ∧ w.chunk = .bytes v ∧
      w.promise t = .fulfilled (.number (v.byteLength s.detached)) := by
  have he : s.apiCall (.write socket (.bytes v)) callback waiter =
      (s.recordWrite [⟨socket, .bytes v, .number (v.byteLength s.detached), .undefined⟩],
        .undefined) := by
    simp [AsyncSRT.apiCall, ApiCall.earlyError, AsyncSRT.createAsyncWorkPromise,
      AsyncSRT.isDisposed, hw, hd, ApiCall.byteLength, ApiCall.writeFrame]
  rw [he]
  refine ⟨rfl, ⟨socket, .bytes v, .number (v.byteLength s.detached), .undefined⟩, ?_, rfl,
    rfl, ?_⟩
  · exact List.mem_append_right _ (List.mem_singleton_self _)
  · simp [WriteCall.promise]

/-- What the promise of a write says once it has settled, and why it may not have. -/
theorem Sending.promise_cases {s : AsyncSRT κ} (h : Sending s) {w : WriteCall}
    (hw : w ∈ s.writes) :
    match w.promise s with
    | .fulfilled n => Sent s w.socket w.chunk ∧ n = w.byteLength ∧
        ∀ v, w.chunk = .bytes v → n = .number v.data.length
    | .rejected _ => True
    | .pending => ∃ k, w.awaited = .promise k ∧ s.answered ≤ k ∧ k < s.posted.length ∧
        s.worker = true := by
  have hc := h.invariant.correlated
  have hne := h.written.awaited w hw
  cases ha : w.awaited with
  | threw e => simp [WriteCall.promise, ha]
  | rejectedPromise e => simp [WriteCall.promise, ha]
  | undefined => exact absurd ha hne
  | promise k =>
    obtain ⟨p, hpos, hpost, _, hlen⟩ := h.written.posted w hw k ha
    have hlt := (List.getElem?_eq_some_iff.mp hpos).1
    cases hp : s.promise k with
    | rejected e => simp [WriteCall.promise, ha, hp]
    | pending =>
      have hu : k ∈ s.unsettled := by
        simp [AsyncSRT.unsettled, hc.accepted, ← hc.posted_length, hlt, hp]
      have hheld : s.worker = true := by
        by_contra hw'
        have hd := h.invariant.disposal
        have hphase := mt hd.held.mpr hw'
        simp only [not_or] at hphase
        have hempty := hd.unsettled_empty (hd.clear hphase.1 hphase.2.1)
        rw [hempty] at hu
        exact absurd hu (Finset.notMem_empty _)
      have hk : s.answered ≤ k := by
        by_contra hk
        exact h.invariant.settled.answered hheld k (by omega) hp
      simp only [WriteCall.promise, ha, hp]
      exact ⟨k, rfl, hk, hlt, hheld⟩
    | fulfilled v =>
      obtain ⟨_, m, hm, hv⟩ := h.invariant.settled.fulfilled k v hp
      obtain ⟨o, ho, rfl⟩ := hc.executed_at hpos hm
      simp only [WriteCall.promise, ha, hp]
      by_cases hv' : v = .number SRT_ERROR
      · simp [hv']
      · simp only [hv', if_false]
        rw [replyTo_result] at hv
        cases o with
        | error err => exact absurd hv.symm hv'
        | ok r =>
          refine ⟨⟨r, ?_, ?_⟩, trivial, hlen⟩
          · rw [← hpost]
            exact List.mem_of_getElem? ho
          · rintro rfl
            exact hv' hv.symm

theorem Sent.mono {s t : AsyncSRT κ} {socket chunk : JSValue} (h : Sent s socket chunk)
    (hx : Extends s t) : Sent t socket chunk := by
  obtain ⟨r, hr, hne⟩ := h
  exact ⟨r, hx.executed.subset hr, hne⟩

end AsyncApi
