import NodeSrt.SocketAsyncSteps

/-! # Every state of a socket object is wired

The steps that are not ordinary are listed by `step_cases`; whatever is proved of the
ownership of the socket goes through that list. -/
namespace SocketAsync

open AsyncValues
open TransitionSystem
open AsyncApi
open NativeSrt
open OrderedPort
open ServerConnection (SRTServerConnection)

variable {σ ω : Type*} {s t : State σ ω}

/-! ## Replies -/

namespace Wired

theorem not_rejected (h : Wired s) (k : ℕ) : s.asyncSrt.async.rejected k = false := by
  by_contra hr
  obtain ⟨_, p, hp, hu, _⟩ := h.invariant.settled.late k (by simpa using hr)
  rw [(h.plain p (List.mem_of_getElem? hp)).2] at hu
  cases hu

theorem all_answered (h : Wired s) (hl : s.asyncSrt.async.lockLevel ≤ 0) :
    s.asyncSrt.async.posted.length ≤ s.asyncSrt.async.answered := by
  obtain ⟨hc, hs, hd⟩ := h.invariant
  have hempty := hd.unsettled_empty hl
  by_contra hlt
  have hpend := hs.unanswered (le_refl s.asyncSrt.async.answered) (h.not_rejected _)
  have hmem : s.asyncSrt.async.answered ∈ s.asyncSrt.async.unsettled := by
    rw [AsyncSRT.unsettled, hc.accepted, ← hc.posted_length]
    simpa using ⟨not_le.mp hlt, hpend⟩
  rw [hempty] at hmem
  exact absurd hmem (Finset.notMem_empty _)

theorem queue_nil (h : Wired s) (hl : s.asyncSrt.async.lockLevel ≤ 0) :
    s.asyncSrt.async.workCbQueue = [] := by
  cases hw : s.asyncSrt.async.worker with
  | false => exact h.invariant.correlated.dropped hw
  | true =>
    rw [h.invariant.correlated.waiting hw, List.drop_eq_nil_iff, List.length_map]
    exact h.all_answered hl

theorem dropped (h : Wired s) (hw : s.asyncSrt.async.worker = false) :
    s.asyncSrt.async.lockLevel ≤ 0 ∧ s.asyncSrt.async.toWorker = [] ∧
      s.asyncSrt.async.toMain = [] := by
  obtain ⟨hc, _, hd⟩ := h.invariant
  have hheld : ¬ (s.asyncSrt.async.disposing = .notCalled ∨
      s.asyncSrt.async.disposing = .waiting ∨ s.asyncSrt.async.disposing = .resuming) := by
    rw [← hd.held, hw]
    simp
  have hl := hd.clear (fun he => hheld (Or.inl he)) fun he => hheld (Or.inr (Or.inl he))
  have hall := h.all_answered hl
  have hle := hc.transit.received_le
  have ho := hc.transit.outstanding
  rw [List.length_map] at ho
  refine ⟨hl, List.eq_nil_of_length_eq_zero (by omega), List.eq_nil_of_length_eq_zero (by omega)⟩

theorem executing (h : Wired s) {data : AsyncSRTWorkerPost} {rest : List AsyncSRTWorkerPost}
    (hq : s.asyncSrt.async.toWorker = data :: rest) :
    s.asyncSrt.async.worker = true ∧ anyUndefined data.args = false ∧
      ∃ p ∈ s.asyncSrt.async.posted, p.2 = data ∧ p.1.waiter ∈ s.awaits := by
  have hc := h.invariant.correlated
  have hw : s.asyncSrt.async.worker = true := by
    by_contra hw
    have := (h.dropped (by simpa using hw)).2.1
    rw [hq] at this
    cases this
  have ht := hc.transit
  rw [hq] at ht
  obtain ⟨p, hp, hdata⟩ : ∃ p, s.asyncSrt.async.posted[s.asyncSrt.async.replies.length]? = some p ∧
      p.2 = data := by
    simpa using ht.served_next
  have hmem := List.mem_of_getElem? hp
  refine ⟨hw, hdata ▸ hc.defined p hmem, p, hmem, hdata, List.mem_append_right _ ?_⟩
  have hin : p.1 ∈ s.asyncSrt.async.workCbQueue := by
    rw [hc.waiting hw, List.mem_iff_getElem?]
    refine ⟨s.asyncSrt.async.replies.length - s.asyncSrt.async.answered, ?_⟩
    rw [List.getElem?_drop, Nat.add_sub_cancel' ht.received_le, List.getElem?_map, hp]
    rfl
  exact List.mem_map_of_mem hin

/-- The reply that comes in is that of the oldest call which has none. -/
theorem deliver_at (h : Wired s) (hm : s.asyncSrt.async.toMain ≠ []) :
    ∃ (p : OnResult Await × AsyncSRTWorkerPost) (ks : List (OnResult Await)) (o : Outcome),
      s.asyncSrt.async.posted[s.asyncSrt.async.answered]? = some p ∧
      s.asyncSrt.async.executed[s.asyncSrt.async.answered]? = some (p.2, o) ∧
      s.deliver = (s.setAsync (AsyncApi.next s.asyncSrt.async .deliver)).wake p.1.waiter
        (.ok (resultOf o)) ∧
      s.asyncSrt.async.workCbQueue = p.1 :: ks ∧
      (AsyncApi.next s.asyncSrt.async .deliver).workCbQueue = ks ∧
      (AsyncApi.next s.asyncSrt.async .deliver).disposing = s.asyncSrt.async.disposing ∧
      (AsyncApi.next s.asyncSrt.async .deliver).running = none ∧
      (AsyncApi.next s.asyncSrt.async .deliver).answered = s.asyncSrt.async.answered + 1 := by
  have hc := h.invariant.correlated
  have hw : s.asyncSrt.async.worker = true := by
    by_contra hw
    exact hm (h.dropped (by simpa using hw)).2.2
  obtain ⟨data, rest, hdata⟩ := List.exists_cons_of_ne_nil hm
  obtain ⟨p, ks, hq, hp, hcall, hlt, hrep, hks⟩ := hc.head hw hdata
  obtain ⟨o, hx, rfl⟩ := hc.executed_at hp hrep
  have hmem := List.mem_of_getElem? hp
  have hpend : s.asyncSrt.async.promise p.1.call = .pending :=
    h.invariant.settled.unanswered hcall.ge (h.not_rejected _)
  refine ⟨p, ks, o, hp, hx, ?_, hq, ?_, ?_, ?_, ?_⟩
  · simp [State.deliver, hq, AsyncApi.next, hdata, deliver_of_queue hw hq, onResult_eq,
      h.not_rejected, settled_of_pending hpend, State.wakeSettled, State.setAsync, replyTo_result]
  · simp [AsyncApi.next, hdata, deliver_of_queue hw hq, onResult_eq]
  · simp [AsyncApi.next, hdata, deliver_of_queue hw hq, onResult_eq]
  · simp [AsyncApi.next, hdata, deliver_of_queue hw hq, onResult_eq, h.running, (h.plain p hmem).1]
  · simp [AsyncApi.next, hdata, deliver_of_queue hw hq, onResult_eq]

/-- The reply wakes the await it is for. -/
theorem deliver_eq (h : Wired s) (hm : s.asyncSrt.async.toMain ≠ []) :
    ∃ (p : OnResult Await × AsyncSRTWorkerPost) (ks : List (OnResult Await)) (v : ReturnValue),
      s.deliver = (s.setAsync (AsyncApi.next s.asyncSrt.async .deliver)).wake p.1.waiter (.ok v) ∧
      s.asyncSrt.async.workCbQueue = p.1 :: ks ∧
      (AsyncApi.next s.asyncSrt.async .deliver).workCbQueue = ks ∧
      (AsyncApi.next s.asyncSrt.async .deliver).disposing = s.asyncSrt.async.disposing ∧
      (AsyncApi.next s.asyncSrt.async .deliver).running = none ∧ Replied s p.1.waiter v := by
  obtain ⟨p, ks, o, hp, hx, e, hq, hks, hd, hr, -⟩ := h.deliver_at hm
  exact ⟨p, ks, resultOf o, e, hq, hks, hd, hr, p, List.mem_of_getElem? hp, o, rfl,
    List.mem_of_getElem? hx, rfl⟩

theorem moves_deliver (h : Wired s) (he : Enabled s (.deliver : Event ω)) : Moves s s.deliver := by
  obtain ⟨⟨_, hmicro, _⟩, hm⟩ := he
  obtain ⟨p, ks, v, e, hq, hks, hdisp, hrun, hrep⟩ := h.deliver_eq hm
  obtain ⟨data, rest, hdata⟩ := List.exists_cons_of_ne_nil hm
  have hf := deliver_frame s.asyncSrt.async data
  have hnext : AsyncApi.next s.asyncSrt.async .deliver = s.asyncSrt.async.deliver data := by
    simp [AsyncApi.next, hdata]
  have hinv := step_preserves_invariant (e := .deliver) h.invariant ⟨⟨hm, h.running⟩, trivial⟩
  rw [hnext] at e hks hdisp hrun hinv
  simp only [Prod.mk.injEq] at hf
  obtain ⟨hposted, hworker, hstart, _, hexec, _, _, _⟩ := hf
  -- the oldest call in the queue becomes the only microtask
  have hawaits : s.deliver.awaits = s.awaits := by
    simp [e, State.awaits, State.wake, State.setAsync, hmicro, hq, hks]
  rw [e] at hawaits ⊢
  refine ⟨⟨hinv, hrun, ?_, ?_, ?_, h.closed, h.frames, ?_, ?_, ?_, ?_⟩, ⟨rfl, ?_, ?_, ⟨[], ?_⟩,
    ⟨[], ?_⟩, rfl, ⟨[], ?_⟩⟩⟩
  · simpa [State.wake, State.setAsync, hposted] using h.plain
  · simpa [State.wake, State.setAsync, hposted] using h.matched
  · intro x hx
    have hx : x = (p.1.waiter, .ok v) := by
      simpa [State.wake, State.setAsync, hmicro] using hx
    rw [hx]
    refine Or.inr (Or.inl ⟨v, rfl, hrep.mono (fun p hp => ?_) fun x hx => ?_⟩)
    · simpa [State.wake, State.setAsync, hposted] using hp
    · simpa [State.wake, State.setAsync, hexec] using hx
  · rw [hawaits]
    exact h.waits
  · simpa [State.wake, State.setAsync, hstart] using h.disposing
  · simpa [State.wake, State.setAsync, hposted] using h.closes
  · simpa [State.wake, State.setAsync, hposted] using h.creates
  · simp [State.wake, State.setAsync, hexec, hdisp, hstart, hworker]
  · intro a _
    rw [hawaits]
  · simp [State.wake, State.setAsync, hposted]
  · simp [State.wake, State.setAsync]
  · simp [State.wake, State.setAsync]

/-! ## Steps that own the socket -/

theorem async_notCalled (h : Wired s) (hd : s.startedToDispose = false) :
    s.asyncSrt.async.startedToDispose = false ∧ s.asyncSrt.async.disposing = .notCalled := by
  have hs : s.asyncSrt.async.startedToDispose = false := by
    by_contra hn
    have := h.disposing (by simpa using hn)
    simp [hd] at this
  exact ⟨hs, h.invariant.disposal.started.mp hs⟩

theorem terminated (h : Wired s) (hd : s.asyncSrt.async.disposing = .terminating ∨
    s.asyncSrt.async.disposing = .finished) : s.asyncSrt.async.worker = false := by
  by_contra hn
  have hheld := h.invariant.disposal.held.mp (by simpa using hn)
  rcases hd with hd | hd <;> simp [hd] at hheld

theorem accepts (h : Wired s) (hd : s.startedToDispose = false) {c : ApiCall} (hc : Simple c)
    (hu : anyUndefined c.post.args = false) : Accepts s.asyncSrt.async c := by
  obtain ⟨hstart, hnot⟩ := h.async_notCalled hd
  have hw := h.invariant.disposal.held.mpr (Or.inl hnot)
  exact ⟨⟨hc.early, hw, hstart, hu⟩, sendable_of_plain hc.plain _⟩

theorem frame (h : Wired s) (he : (t.asyncSrt, t.connections) = (s.asyncSrt, s.connections))
    (hmicro : ∀ x ∈ t.microtasks, x ∈ s.microtasks) (hstack : ∀ f ∈ t.stack, f.isClosing = false)
    (hd : s.startedToDispose = true → t.startedToDispose = true) : Wired t := by
  cases s
  cases t
  simp only [Prod.mk.injEq] at he
  obtain ⟨rfl, rfl⟩ := he
  refine { h with
      origin := fun x hx => h.origin x (hmicro x hx)
      frames := hstack
      waits := ?_
      disposing := fun hs => hd (h.disposing hs)
      closes := fun p hp hm => hd (h.closes p hp hm) }
  intro a ha
  apply h.waits a
  rcases List.mem_append.mp ha with ha | ha
  · obtain ⟨x, hx, rfl⟩ := List.mem_map.mp ha
    exact List.mem_append_left _ (List.mem_map_of_mem (hmicro x hx))
  · exact List.mem_append_right _ ha

theorem pop (h : Wired s) {x : Await × Except Failure ReturnValue}
    {rest : List (Await × Except Failure ReturnValue)} (hq : s.microtasks = x :: rest) :
    Wired { s with microtasks := rest } :=
  h.frame rfl (fun _ hx => hq ▸ List.mem_cons_of_mem _ hx) h.frames id

theorem method_of_waiter (h : Wired s) {q : OnResult Await × AsyncSRTWorkerPost}
    (hq : q ∈ s.asyncSrt.async.posted) {a : Await} {m : Method} (hwait : q.1.waiter = a)
    (ha : a.method = some m) : q.2.method = m := by
  have hm := h.matched q hq
  rw [hwait, ha] at hm
  exact (Option.some.inj hm).symm

/-- The value of `create`, and before disposal of any call, is the reply to it. -/
theorem replied (h : Wired s) {a : Await} {v : ReturnValue}
    (hd : a = .create ∨ s.asyncSrt.async.startedToDispose = false) (ha : a.method ≠ none)
    (hx : (a, .ok v) ∈ s.microtasks) : Replied s a v := by
  rcases h.origin _ hx with ho | ⟨w, hv, hr⟩ | ⟨hne, hv⟩
  · exact absurd ho ha
  · cases hv
    exact hr
  · have hstart := hv v rfl
    rcases hd with hd | hd
    · exact absurd hd hne
    · simp [hd] at hstart

theorem setAsync (h : Wired s) {async : AsyncSRT Await} (hinv : Invariant async)
    (he : (async.posted, async.executed, async.running, async.workCbQueue) =
      (s.asyncSrt.async.posted, s.asyncSrt.async.executed, s.asyncSrt.async.running,
        s.asyncSrt.async.workCbQueue))
    (hd : async.startedToDispose = true → s.startedToDispose = true)
    (hk : s.asyncSrt.async.startedToDispose = true → async.startedToDispose = true) :
    Wired (s.setAsync async) := by
  simp only [Prod.mk.injEq] at he
  obtain ⟨hp, hx, hr, hq⟩ := he
  have hawaits : (s.setAsync async).awaits = s.awaits := by
    simp [State.awaits, State.setAsync, hq]
  refine ⟨hinv, hr.trans h.running, ?_, ?_, ?_, h.closed, h.frames, hawaits ▸ h.waits, hd, ?_, ?_⟩
  · simpa [State.setAsync, hp] using h.plain
  · simpa [State.setAsync, hp] using h.matched
  · intro x hmem
    refine (h.origin x hmem).mono ?_ ?_ hk
    · simp [State.setAsync, hp]
    · simp [State.setAsync, hx]
  · simpa [State.setAsync, hp] using h.closes
  · simpa [State.setAsync, hp] using h.creates

theorem wake (h : Wired s) {a : Await} {r : Except Failure ReturnValue} (ho : a.method = none)
    (ha : a.isClosing = false) : Wired (s.wake a r) := by
  refine { h with origin := ?_, waits := ?_ }
  · intro x hx
    rcases List.mem_append.mp hx with hx | hx
    · exact h.origin x hx
    · rw [List.mem_singleton.mp hx]
      exact Or.inl ho
  · intro b hb
    rcases List.mem_append.mp ((awaits_wake s a r).mem_iff.mp hb) with hb | hb
    · exact h.waits b hb
    · rwa [List.mem_singleton.mp hb]

theorem awaitDisposed (h : Wired s) (started : Bool) : Wired (s.awaitDisposed started) := by
  unfold State.awaitDisposed
  split
  · exact h.wake rfl rfl
  · exact h

theorem terminateWorker_same (h : Wired s) (hl : s.asyncSrt.async.lockLevel ≤ 0) :
    ((s.asyncSrt.async.terminateWorker).posted, (s.asyncSrt.async.terminateWorker).executed,
      (s.asyncSrt.async.terminateWorker).running, (s.asyncSrt.async.terminateWorker).workCbQueue,
      (s.asyncSrt.async.terminateWorker).startedToDispose) =
    (s.asyncSrt.async.posted, s.asyncSrt.async.executed, s.asyncSrt.async.running,
      s.asyncSrt.async.workCbQueue, s.asyncSrt.async.startedToDispose) := by
  rw [h.queue_nil hl]
  cases hw : s.asyncSrt.async.worker <;> simp [AsyncSRT.terminateWorker, hw]

/-- The instance starts its disposal: it waits for its calls, or the worker is terminated. -/
theorem dispose_same (h : Wired s) (hd : s.asyncSrt.async.startedToDispose = false) :
    (s.asyncSrt.async.dispose.posted, s.asyncSrt.async.dispose.executed,
      s.asyncSrt.async.dispose.running, s.asyncSrt.async.dispose.workCbQueue) =
    (s.asyncSrt.async.posted, s.asyncSrt.async.executed, s.asyncSrt.async.running,
      s.asyncSrt.async.workCbQueue) ∧
    s.asyncSrt.async.dispose.startedToDispose = true ∧
    (s.asyncSrt.async.dispose.disposing = .waiting ∨
      s.asyncSrt.async.dispose.disposing = .terminating) := by
  have hdisp := h.invariant.disposal
  have hw := hdisp.held.mpr (Or.inl (hdisp.started.mp hd))
  rcases dispose_cases s.asyncSrt.async with ⟨he, _⟩ | ⟨_, _, e⟩ | ⟨_, hl, e⟩
  · simp [hd] at he
  · rw [e]
    exact ⟨rfl, rfl, Or.inl rfl⟩
  · rw [e, terminateWorker_eq (s := { s.asyncSrt.async with startedToDispose := true }) hw]
    exact ⟨by rw [h.queue_nil hl], rfl, Or.inr rfl⟩

end Wired

theorem Wired.disposeAsync_frame (h : Wired s) :
    (s.disposeAsync.socket, s.disposeAsync.startedToDispose, s.disposeAsync.createCalls,
      s.disposeAsync.log, s.disposeAsync.stack, s.disposeAsync.returns,
      s.disposeAsync.asyncSrt.native, s.disposeAsync.asyncSrt.async.posted,
      s.disposeAsync.asyncSrt.async.executed) =
    (s.socket, s.startedToDispose, s.createCalls, s.log, s.stack, s.returns, s.asyncSrt.native,
      s.asyncSrt.async.posted, s.asyncSrt.async.executed) ∧
    (∀ a, a ≠ .disposeAsync → s.disposeAsync.awaits.count a = s.awaits.count a) ∧
    (s.asyncSrt.async.startedToDispose = false →
      s.disposeAsync.asyncSrt.async.disposing ≠ .finished) := by
  obtain ⟨hp, hx, hk⟩ : s.asyncSrt.async.dispose.posted = s.asyncSrt.async.posted ∧
      s.asyncSrt.async.dispose.executed = s.asyncSrt.async.executed ∧
      s.asyncSrt.async.dispose.workCbQueue = s.asyncSrt.async.workCbQueue := by
    cases hd : s.asyncSrt.async.startedToDispose with
    | true => simp [AsyncSRT.dispose, hd]
    | false =>
      have hsame := (h.dispose_same hd).1
      simp only [Prod.mk.injEq] at hsame
      exact ⟨hsame.1, hsame.2.1, hsame.2.2.2⟩
  have hnot : s.asyncSrt.async.startedToDispose = false →
      s.asyncSrt.async.dispose.disposing ≠ .finished := by
    intro hd
    rcases (h.dispose_same hd).2.2 with he | he <;> simp [he]
  simp only [State.disposeAsync, State.awaitDisposed]
  split
  · refine ⟨by simp [State.wake, State.setAsync, hp, hx], fun a ha => ?_, hnot⟩
    have hnot : a ∉ [Await.disposeAsync] := by simpa using ha
    rw [(awaits_wake _ _ _).count_eq, List.count_append, List.count_eq_zero_of_not_mem hnot]
    simp [State.awaits, State.setAsync, hk]
  · refine ⟨by simp [State.setAsync, hp, hx], fun a _ => ?_, hnot⟩
    simp [State.awaits, State.setAsync, hk]

/-- What a step may be when the ownership of the socket is concerned. -/
inductive Case (sync : SyncSRT σ ω) (s : State σ ω) : Event ω → State σ ω → Prop
  | moves {e : Event ω} {t : State σ ω} (h : Moves s t) : Case sync s e t
  | refuses {r : Except Failure CallValue} (hr : (.create, r) ∈ refusals)
      (hs : r = .error (.socket .createTwice) → s.socket ≠ .null)
      (hd : r = .ok (.value .null) → s.startedToDispose = true) :
      Case sync s .create ({ s with createCalls := s.createCalls + 1 }.ret .create r)
  | creates (hs : s.socket = .null) (hd : s.startedToDispose = false) :
      Case sync s .create ({ s with createCalls := s.createCalls + 1 }.setAsync
        (s.asyncSrt.async.accept (.createSocket .undefined) false .create))
  | closes {u : State σ ω} (h : Moves s u) (hs : u.socket ≠ .null)
      (hd : u.startedToDispose = false) :
      Case sync s .dispose ({ u with startedToDispose := true, disposal := .closing }.post
        (.close u.socket.toValue) .disposeClose)
  | vacuous {u : State σ ω} (h : Moves s u) (hs : u.socket = .null)
      (hd : u.startedToDispose = false) :
      Case sync s .dispose { u with startedToDispose := true }.emitDisposed
  | created {rest : List (Await × Except Failure ReturnValue)} {v : ReturnValue}
      (hq : s.microtasks = (.create, .ok v) :: rest) :
      Case sync s .resume
        ({ s with microtasks := rest, socket := .ofReply v }.emit .created .created)
  | closed {rest : List (Await × Except Failure ReturnValue)} {v : ReturnValue}
      (hq : s.microtasks = (.disposeClose, .ok v) :: rest) :
      Case sync s .resume { s with microtasks := rest }.disposeAsync
  | disposed {rest : List (Await × Except Failure ReturnValue)} {v : ReturnValue}
      (hs : s.stack = []) (hq : s.microtasks = (.disposeAsync, .ok v) :: rest) :
      Case sync s .resume { s with microtasks := rest, socket := .null }.emitDisposed
  | fails {rest : List (Await × Except Failure ReturnValue)} {a : Await} {e : Failure}
      (ha : a = .disposeClose ∨ a = .disposeAsync) (hq : s.microtasks = (a, .error e) :: rest) :
      Case sync s .resume ({ s with microtasks := rest }.failDispose e)
  | finishes {rest : List Frame} (hs : s.stack = .disposed :: rest) :
      Case sync s (.listenerReturn false)
        ({ s with stack := rest, disposal := .finished }.ret .dispose (.ok (.value .undefined)))
  | throws {rest : List Frame} (hs : s.stack = .disposed :: rest) :
      Case sync s (.listenerReturn true) ({ s with stack := rest }.failDispose .listener)
  | executes {data : AsyncSRTWorkerPost} {rest : List AsyncSRTWorkerPost}
      (hq : s.asyncSrt.async.toWorker = data :: rest) :
      Case sync s .exec { s with asyncSrt :=
        ⟨s.asyncSrt.async.exec data (sync.call s.asyncSrt.native data).2,
          (sync.call s.asyncSrt.native data).1, s.asyncSrt.history ++ [.inr data]⟩ }
  | phase {e : Event ω} {async : AsyncSRT Await}
      (hsame : (async.posted, async.executed, async.workCbQueue, async.startedToDispose) =
        (s.asyncSrt.async.posted, s.asyncSrt.async.executed, s.asyncSrt.async.workCbQueue,
          s.asyncSrt.async.startedToDispose))
      (hs : s.asyncSrt.async.disposing = .waiting ∨ s.asyncSrt.async.disposing = .resuming)
      (ht : async.disposing = .waiting ∨ async.disposing = .resuming ∨
        async.disposing = .terminating) : Case sync s e (s.setAsync async)
  | exits {code : ℤ} (hi : Idle s) (hd : s.asyncSrt.async.disposing = .terminating) :
      Case sync s (.exited code) ((s.setAsync (AsyncApi.next s.asyncSrt.async (.exited code))).wake
        .disposeAsync (.ok .undefined))
  | env (w : ω) : Case sync s (.env w) { s with asyncSrt :=
      { s.asyncSrt with
        native := sync.env s.asyncSrt.native w
        history := s.asyncSrt.history ++ [.inl w] } }

variable {sync : SyncSRT σ ω} {p : Config}

namespace Wired

theorem step_create (h : Wired s) : Wired s.create ∧ Case sync s .create s.create := by
  have hcount : Wired { s with createCalls := s.createCalls + 1 } :=
    h.frame rfl (fun _ hx => hx) h.frames id
  have hret : ∀ r, Wired ({ s with createCalls := s.createCalls + 1 }.ret .create r) :=
    fun _ => hcount.frame rfl (fun _ hx => hx) h.frames id
  simp only [State.create]
  by_cases hs : s.socket = .null
  · rw [if_neg (by simpa using hs)]
    by_cases hd : s.startedToDispose = true
    · rw [if_pos hd]
      exact ⟨hret _, .refuses (by simp [refusals]) (fun he => by cases he) fun _ => hd⟩
    · rw [if_neg hd]
      have hd : s.startedToDispose = false := by simpa using hd
      have hacc := hcount.accepts hd simple_createSocket rfl
      refine ⟨hcount.post simple_createSocket rfl rfl (fun _ => hacc) (fun he => by cases he)
        (fun _ => rfl), ?_⟩
      have e := post_of_accepts hcount.invariant simple_createSocket hacc .create
      rw [e]
      exact .creates hs hd
  · rw [if_pos (by simpa using hs)]
    exact ⟨hret _, .refuses (by simp [refusals]) (fun _ => hs) fun he => by cases he⟩

theorem frames_cons (h : Wired s) {f : Frame} (hf : f.isClosing = false) :
    ∀ g ∈ f :: s.stack, g.isClosing = false := by
  intro g hg
  rcases List.mem_cons.mp hg with rfl | hg
  · exact hf
  · exact h.frames g hg

theorem step_dispose (h : Wired s) : Wired (s.dispose p) ∧ Case sync s .dispose (s.dispose p) := by
  obtain ⟨u, hm, e⟩ : ∃ u, Moves s u ∧ u = if p.kind = .server then s.clearTimers else s := by
    split
    · exact ⟨_, h.moves_clearTimers, rfl⟩
    · exact ⟨_, .refl h, rfl⟩
  simp only [State.dispose, ← e]
  have hw := hm.wired
  by_cases hd : u.startedToDispose = true
  · rw [if_pos hd]
    have hret : Moves s (u.ret .dispose (.ok (.value .undefined))) :=
      hm.trans (hw.moves_ret (by simp [refusals]))
    exact ⟨hret.wired, .moves hret⟩
  · rw [if_neg hd]
    have hd : u.startedToDispose = false := by simpa using hd
    by_cases hs : u.socket = .null
    · rw [if_neg (by simpa using hs)]
      exact ⟨hw.frame rfl (fun _ hx => hx) (hw.frames_cons rfl) (fun _ => rfl),
        .vacuous hm hs hd⟩
    · rw [if_pos (by simpa using hs)]
      have hstage : Wired { u with startedToDispose := true, disposal := .closing } :=
        hw.frame rfl (fun _ hx => hx) hw.frames (fun _ => rfl)
      refine ⟨hstage.post (simple_close _) rfl rfl (fun he => ?_) (fun _ => rfl) (fun he => ?_),
        .closes hm hs hd⟩ <;> cases he

theorem step_disposeAsync (h : Wired s) (hs : s.startedToDispose = true) :
    Wired s.disposeAsync := by
  have hinv : Invariant s.asyncSrt.async.dispose :=
    step_preserves_invariant (e := .dispose) h.invariant ⟨trivial, trivial⟩
  have hset : Wired (s.setAsync s.asyncSrt.async.dispose) := by
    cases hd : s.asyncSrt.async.startedToDispose with
    | true =>
      have e : s.asyncSrt.async.dispose = s.asyncSrt.async := by simp [AsyncSRT.dispose, hd]
      rw [e]
      exact h
    | false =>
      obtain ⟨hsame, _, _⟩ := h.dispose_same hd
      exact h.setAsync hinv hsame (fun _ => hs) (fun he => by simp [hd] at he)
  exact (hset.frame rfl (fun _ hx => hx) h.frames id : Wired
    { s.setAsync s.asyncSrt.async.dispose with disposal := .disposing }).awaitDisposed _

theorem started (h : Wired s) {v : ReturnValue}
    (hmem : (.disposeClose, .ok v) ∈ s.microtasks) : s.startedToDispose = true := by
  rcases h.origin _ hmem with hn | ⟨w, _, q, hq, _, hw, _⟩ | ⟨_, hv⟩
  · cases hn
  · exact h.closes q hq (h.method_of_waiter hq hw rfl)
  · exact h.disposing (hv v rfl)

theorem step_resume (h : Wired s) (hs : s.stack = []) {a : Await}
    {r : Except Failure ReturnValue} {rest : List (Await × Except Failure ReturnValue)}
    (hq : s.microtasks = (a, r) :: rest) :
    Wired ({ s with microtasks := rest }.resume a r) ∧
      Case sync s .resume ({ s with microtasks := rest }.resume a r) := by
  have hpop : Wired { s with microtasks := rest } := h.pop hq
  have hmem : a ∈ s.awaits := List.mem_append_left _ (by simp [hq])
  cases ho : a.owning with
  | false =>
    have hord : Ordinary s { s with microtasks := rest } := by
      refine ⟨rfl, rfl, fun b hb => ?_, ⟨[], by simp⟩, ⟨[], by simp⟩, rfl, ⟨[], by simp⟩⟩
      have hne : a ≠ b := fun he => by rw [he, hb] at ho; cases ho
      simp [State.awaits, hq, hne]
    have hm := hpop.moves_resume ho r
    exact ⟨hm.wired, .moves ⟨hm.wired, hord.trans hm.ordinary⟩⟩
  | true =>
    cases a with
    | create =>
      cases r with
      | ok v =>
        exact ⟨hpop.frame rfl (fun _ hx => hx) (h.frames_cons rfl) id, .created hq⟩
      | error e =>
        have hor := h.origin (.create, .error e) (by simp [hq])
        simp [Origin, Await.method] at hor
    | disposeClose =>
      cases r with
      | ok v => exact ⟨hpop.step_disposeAsync (h.started (v := v) (by simp [hq])), .closed hq⟩
      | error e =>
        exact ⟨hpop.frame rfl (fun _ hx => hx) h.frames id, .fails (Or.inl rfl) hq⟩
    | disposeAsync =>
      cases r with
      | ok v =>
        exact ⟨hpop.frame rfl (fun _ hx => hx) (h.frames_cons rfl) id, .disposed hs hq⟩
      | error e =>
        exact ⟨hpop.frame rfl (fun _ hx => hx) h.frames id, .fails (Or.inr rfl) hq⟩
    | closing c caller => exact absurd (h.waits _ hmem) (by simp [Await.isClosing])
    | opening step | epollUWait | handling step => cases ho

theorem step_listenerReturn (h : Wired s) {f : Frame} {rest : List Frame}
    (hq : s.stack = f :: rest) (threw : Bool) :
    let u := { s with stack := rest }
    let t := if threw then u.listenerThrew f else u.afterListeners f
    Wired t ∧ Case sync s (.listenerReturn threw) t := by
  intro u t
  have hrest : ∀ f ∈ rest, f.isClosing = false :=
    fun f hf => h.frames f (hq ▸ List.mem_cons_of_mem _ hf)
  have hpop : Wired u := h.frame rfl (fun _ hx => hx) hrest id
  have hc : f.isClosing = false := h.frames f (hq ▸ List.mem_cons_self)
  by_cases hd : f = .disposed
  · subst hd
    cases threw with
    | false => exact ⟨hpop.frame rfl (fun _ hx => hx) hrest id, .finishes hq⟩
    | true => exact ⟨hpop.frame rfl (fun _ hx => hx) hrest id, .throws hq⟩
  · have hord : Ordinary s u := by
      refine ⟨rfl, rfl, fun _ _ => rfl, ⟨[], by simp [u]⟩, ⟨[], by simp [u]⟩, ?_, ⟨[], by simp [u]⟩⟩
      simp [u, hq, hd]
    have hm : Moves u t := by
      cases threw with
      | false => exact hpop.moves_afterListeners hc hd
      | true => exact hpop.moves_listenerThrew hc hd
    exact ⟨hm.wired, .moves ⟨hm.wired, hord.trans hm.ordinary⟩⟩

theorem next_exec (h : Wired s) {data : AsyncSRTWorkerPost} {rest : List AsyncSRTWorkerPost}
    (hq : s.asyncSrt.async.toWorker = data :: rest) :
    next sync p s .exec = { s with asyncSrt :=
      ⟨s.asyncSrt.async.exec data (sync.call s.asyncSrt.native data).2,
        (sync.call s.asyncSrt.native data).1, s.asyncSrt.history ++ [.inr data]⟩ } := by
  simp [next, backedMachine, hq, Backed.exec, (h.executing hq).2.1, AsyncApi.next]

theorem step_exec (h : Wired s)
    (he : s.asyncSrt.async.toWorker ≠ [] ∧ s.asyncSrt.async.disposing ≠ .finished) :
    Wired (next sync p s .exec) ∧ Case sync s .exec (next sync p s .exec) := by
  obtain ⟨data, rest, hq⟩ := List.exists_cons_of_ne_nil he.1
  obtain ⟨_, hu, _⟩ := h.executing hq
  have hinv := step_preserves_invariant (e := .exec (sync.call s.asyncSrt.native data).2)
    h.invariant ⟨he, trivial⟩
  simp only [AsyncApi.next, hq] at hinv
  rw [h.next_exec hq]
  refine ⟨{ h with invariant := hinv, origin := ?_ }, .executes hq⟩
  intro x hx
  refine (h.origin x hx).mono (fun _ hp => hp) (fun y hy => ?_) id
  simpa [exec_executed _ hu] using Or.inl hy

theorem step_phase (h : Wired s) {e : AsyncApi.Event Await}
    (hi : Invariant (AsyncApi.next s.asyncSrt.async e))
    (hsame : ((AsyncApi.next s.asyncSrt.async e).posted,
      (AsyncApi.next s.asyncSrt.async e).executed, (AsyncApi.next s.asyncSrt.async e).running,
      (AsyncApi.next s.asyncSrt.async e).workCbQueue,
      (AsyncApi.next s.asyncSrt.async e).startedToDispose) =
      (s.asyncSrt.async.posted, s.asyncSrt.async.executed, s.asyncSrt.async.running,
        s.asyncSrt.async.workCbQueue, s.asyncSrt.async.startedToDispose)) :
    Wired (s.setAsync (AsyncApi.next s.asyncSrt.async e)) := by
  simp only [Prod.mk.injEq] at hsame
  obtain ⟨hp, hx, hr, hq, hd⟩ := hsame
  exact h.setAsync hi (by rw [hp, hx, hr, hq]) (fun he => h.disposing (hd ▸ he)) (fun he => hd ▸ he)

theorem step_pollDispose (h : Wired s) (he : s.asyncSrt.async.disposing = .waiting) :
    Wired (next sync p s .pollDispose) ∧ Case sync s .pollDispose (next sync p s .pollDispose) := by
  have hinv := step_preserves_invariant (e := .pollDispose) h.invariant
    ⟨⟨he, h.running⟩, trivial⟩
  refine ⟨h.step_phase (e := .pollDispose) hinv ?_, ?_⟩
  · simp only [AsyncApi.next]
    split <;> rfl
  · simp only [next, AsyncApi.next]
    split
    · exact .phase rfl (Or.inl he) (Or.inr (Or.inl rfl))
    · exact .phase rfl (Or.inl he) (Or.inl he)

theorem step_resumeDispose (h : Wired s) (he : s.asyncSrt.async.disposing = .resuming) :
    Wired (next sync p s .resumeDispose) ∧
      Case sync s .resumeDispose (next sync p s .resumeDispose) := by
  have hdisp := h.invariant.disposal
  have hl := hdisp.clear (by simp [he]) (by simp [he])
  have hw := hdisp.held.mpr (Or.inr (Or.inr he))
  have hinv := step_preserves_invariant (e := .resumeDispose) h.invariant
    ⟨⟨he, h.running⟩, trivial⟩
  have hphase : s.asyncSrt.async.terminateWorker.disposing = .terminating := by
    simp [terminateWorker_eq hw]
  have hsame := h.terminateWorker_same hl
  have e : next sync p s .resumeDispose = s.setAsync s.asyncSrt.async.terminateWorker := by
    simp [next, State.awaitDisposed, State.setAsync, hphase]
  rw [e]
  refine ⟨h.step_phase (e := .resumeDispose) hinv hsame, .phase ?_ (Or.inr he)
    (Or.inr (Or.inr hphase))⟩
  simp only [Prod.mk.injEq] at hsame ⊢
  exact ⟨hsame.1, hsame.2.1, hsame.2.2.2.1, hsame.2.2.2.2⟩

theorem step_exited (h : Wired s) {code : ℤ} (he : Enabled s (.exited code : Event ω)) :
    Wired (next sync p s (.exited code)) ∧
      Case sync s (.exited code) (next sync p s (.exited code)) := by
  have hinv := step_preserves_invariant (e := .exited code) h.invariant
    ⟨⟨he.2, h.running⟩, trivial⟩
  have hset := h.step_phase (e := .exited code) hinv rfl
  refine ⟨hset.awaitDisposed false, ?_⟩
  have e : next sync p s (.exited code) =
      (s.setAsync (AsyncApi.next s.asyncSrt.async (.exited code))).wake .disposeAsync
        (.ok .undefined) := by
    simp [next, State.awaitDisposed, State.setAsync, AsyncApi.next]
  rw [e]
  exact .exits he.1 he.2

theorem step_pollTimer (h : Wired s) : Moves s (next sync p s .pollTimer) := by
  have hfire : Moves s { s with pollEventsTimer := false } :=
    h.moves rfl h.closed ⟨[], rfl, by simp⟩ ⟨[], by simp⟩ ⟨[], by simp⟩
  exact hfire.trans hfire.wired.moves_pollEvents

end Wired

/-- Every step keeps the wiring and is one of the listed cases. -/
theorem step_cases (h : Wired s) {e : Event ω} (he : Enabled s e) :
    Wired (next sync p s e) ∧ Case sync s e (next sync p s e) := by
  cases e with
  | create => exact h.step_create
  | opening =>
    have hm := h.moves_openSocket p
    exact ⟨hm.wired, .moves hm⟩
  | dispose => exact h.step_dispose
  | closeConnection c =>
    have hm := h.moves_closeConnection c .user
    exact ⟨hm.wired, .moves hm⟩
  | listenerReturn threw =>
    obtain ⟨f, rest, hq⟩ := List.exists_cons_of_ne_nil he
    simpa only [next, hq] using h.step_listenerReturn hq threw
  | resume =>
    obtain ⟨hs, hm⟩ := he
    obtain ⟨⟨a, r⟩, rest, hq⟩ := List.exists_cons_of_ne_nil hm
    simpa only [next, hq] using h.step_resume hs hq
  | resumeDispose => exact h.step_resumeDispose he.2
  | exec => exact h.step_exec he
  | deliver =>
    have hm := h.moves_deliver he
    exact ⟨hm.wired, .moves hm⟩
  | pollTimer =>
    have hm : Moves s (next sync p s .pollTimer) := h.step_pollTimer
    exact ⟨hm.wired, .moves hm⟩
  | pollDispose => exact h.step_pollDispose he.2
  | exited code => exact h.step_exited he
  | env w =>
    exact ⟨⟨h.invariant, h.running, h.plain, h.matched, h.origin, h.closed, h.frames, h.waits,
      h.disposing, h.closes, h.creates⟩, .env w⟩

theorem step_wired (h : Wired s) {e : Event ω} (he : Enabled s e) : Wired (next sync p s e) :=
  (step_cases h he).1

theorem execution_wired {n : σ} (h : (machine sync p).Execution (initial n) s) : Wired s :=
  h.invariant (initial_wired n) fun _ _ hu he => step_wired hu he

theorem Case.starts {e : Event ω} (h : Case sync s e t) (hw : Wired s)
    (hs : s.startedToDispose = true) : t.startedToDispose = true := by
  cases h with
  | moves hm =>
    have hf := hm.ordinary.fields
    simp only [Prod.mk.injEq] at hf
    exact hf.2.1.trans hs
  | @closes u hm _ _ =>
    have hpost := post_frame (s := { u with startedToDispose := true, disposal := .closing })
      hm.wired.invariant (simple_close u.socket) .disposeClose
    have hf := hpost.2.2.1
    simp only [Prod.mk.injEq] at hf
    exact hf.2.1
  | vacuous => rfl
  | @closed rest v hq =>
    have hwp : Wired { s with microtasks := rest } := hw.pop hq
    have hf := hwp.disposeAsync_frame.1
    simp only [Prod.mk.injEq] at hf
    exact hf.2.1.trans hs
  | refuses | creates | created | disposed | fails | finishes | throws | executes | phase | exits
  | env => exact hs

end SocketAsync
