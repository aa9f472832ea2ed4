import NodeSrt.SocketAsyncInvariant

/-! # Opening a server, and what goes on beside it

The polls, the handlers of their events and the connections only ever add calls that serve
connections. Such steps leave an `open` that is under way alone. -/
namespace SocketAsync

open AsyncValues
open TransitionSystem
open AsyncApi
open NativeSrt
open ServerConnection (SRTServerConnection)

variable {σ ω : Type*} {s t : State σ ω}

def Await.serving : Await → Bool
  | .epollUWait | .handling _ => true
  | _ => false

def Await.opens : Await → Bool
  | .opening .epollAddUsock => false
  | .opening _ => true
  | _ => false

def State.queue (s : State σ ω) : List Await :=
  s.asyncSrt.async.workCbQueue.map OnResult.waiter

theorem awaits_eq (s : State σ ω) : s.awaits = s.microtasks.map Prod.fst ++ s.queue := rfl

def fulfilled : Call × Except Failure CallValue := (.opening, .ok .this)

def State.isOpen (s : State σ ω) : Prop := fulfilled ∈ s.returns

/-- The calls of `open` that are under way, and those that have subscribed the socket. -/
def State.openings (s : State σ ω) : ℕ :=
  s.awaits.countP Await.opens + s.stack.count .opened +
    s.asyncSrt.async.posted.countP fun p => p.1.waiter = .opening .epollAddUsock

structure Aside (s t : State σ ω) : Prop where
  fields : (t.socket, t.epid, t.startedToDispose, t.asyncSrt.native, t.asyncSrt.async.executed) =
    (s.socket, s.epid, s.startedToDispose, s.asyncSrt.native, s.asyncSrt.async.executed)
  awaits : ∀ a ∈ t.awaits, a ∈ s.awaits ∨ a.serving = true
  opens : t.awaits.countP Await.opens ≤ s.awaits.countP Await.opens
  queue : ∃ l, t.queue = s.queue ++ l ∧ ∀ a ∈ l, a.serving = true
  microtasks : ∀ x ∈ t.microtasks, x ∈ s.microtasks ∨ x.1.serving = true
  posted : ∃ ps, t.asyncSrt.async.posted = s.asyncSrt.async.posted ++ ps ∧
    ∀ p ∈ ps, p.1.waiter.serving = true
  stack : t.stack.count .opened ≤ s.stack.count .opened
  returns : t.isOpen → s.isOpen

namespace Aside

theorem refl (s : State σ ω) : Aside s s :=
  ⟨rfl, fun _ => Or.inl, le_rfl, ⟨[], by simp⟩, fun _ => Or.inl, ⟨[], by simp⟩, le_rfl, id⟩

theorem trans {u : State σ ω} (h : Aside s t) (k : Aside t u) : Aside s u := by
  obtain ⟨l, hl, hls⟩ := h.queue
  obtain ⟨m, hm, hms⟩ := k.queue
  obtain ⟨ps, hp, hps⟩ := h.posted
  obtain ⟨qs, hq, hqs⟩ := k.posted
  refine ⟨k.fields.trans h.fields, fun a ha => (k.awaits a ha).elim (h.awaits a) Or.inr,
    k.opens.trans h.opens, ⟨l ++ m, ?_, ?_⟩,
    fun x hx => (k.microtasks x hx).elim (h.microtasks x) Or.inr, ⟨ps ++ qs, ?_, ?_⟩,
    k.stack.trans h.stack, fun ho => h.returns (k.returns ho)⟩
  · rw [hm, hl, List.append_assoc]
  · intro a ha
    exact (List.mem_append.mp ha).elim (hls a) (hms a)
  · rw [hq, hp, List.append_assoc]
  · intro p hmem
    exact (List.mem_append.mp hmem).elim (hps p) (hqs p)

theorem of_eq (he : (t.asyncSrt, t.microtasks, t.socket, t.epid, t.startedToDispose) =
      (s.asyncSrt, s.microtasks, s.socket, s.epid, s.startedToDispose))
    (hstack : t.stack.count .opened ≤ s.stack.count .opened) (hret : t.isOpen → s.isOpen) :
    Aside s t := by
  cases s
  cases t
  simp only [Prod.mk.injEq] at he
  obtain ⟨rfl, rfl, rfl, rfl, rfl⟩ := he
  exact ⟨rfl, fun _ => Or.inl, le_rfl, ⟨[], (List.append_nil _).symm, by simp⟩, fun _ => Or.inl,
    ⟨[], by simp⟩, hstack, hret⟩

theorem opens_of_serving {a : Await} (h : a.serving = true) : a.opens = false := by
  cases a <;> first | rfl | cases h

theorem pop {x : Await × Except Failure ReturnValue}
    {rest : List (Await × Except Failure ReturnValue)} (hq : s.microtasks = x :: rest) :
    Aside s { s with microtasks := rest } := by
  have hawaits : s.awaits = x.1 :: { s with microtasks := rest }.awaits :=
    awaits_pop (t := { s with microtasks := rest }) hq rfl
  refine ⟨rfl, fun a ha => Or.inl (hawaits ▸ List.mem_cons_of_mem _ ha), ?_, ⟨[], ?_, by simp⟩,
    fun _ hx => Or.inl (hq ▸ List.mem_cons_of_mem _ hx), ⟨[], by simp⟩, le_rfl, id⟩
  · rw [hawaits, List.countP_cons]
    exact Nat.le_add_right _ _
  · exact (List.append_nil _).symm

theorem wake (s : State σ ω) {a : Await} (ha : a.serving = true)
    (r : Except Failure ReturnValue) : Aside s (s.wake a r) := by
  have hperm := awaits_wake s a r
  refine ⟨rfl, fun b hb => ?_, ?_, ⟨[], (List.append_nil _).symm, by simp⟩, fun x hx => ?_,
    ⟨[], by simp [State.wake]⟩, le_rfl, id⟩
  · rcases List.mem_append.mp (hperm.mem_iff.mp hb) with hb | hb
    · exact Or.inl hb
    · rw [List.mem_singleton.mp hb]
      exact Or.inr ha
  · rw [hperm.countP_eq, List.countP_append]
    simp [opens_of_serving ha]
  · rcases List.mem_append.mp hx with hx | hx
    · exact Or.inl hx
    · rw [List.mem_singleton.mp hx]
      exact Or.inr ha

theorem accept (s : State σ ω) (c : ApiCall) {a : Await} (ha : a.serving = true) :
    Aside s (s.setAsync (s.asyncSrt.async.accept c false a)) := by
  have hawaits := awaits_accept s c a
  refine ⟨rfl, fun b hb => ?_, ?_, ⟨[a], ?_, by simpa using ha⟩, fun _ => Or.inl, ⟨[_], rfl, ?_⟩,
    le_rfl, id⟩
  · rw [hawaits] at hb
    rcases List.mem_append.mp hb with hb | hb
    · exact Or.inl hb
    · rw [List.mem_singleton.mp hb]
      exact Or.inr ha
  · rw [hawaits, List.countP_append]
    simp [opens_of_serving ha]
  · simp [State.queue, State.setAsync, AsyncSRT.accept, AsyncSRT.prepare]
  · simpa using ha

theorem post (h : Wired s) {c : ApiCall} (hc : Simple c) {a : Await} (ha : a.serving = true) :
    Aside s (s.post c a) := by
  rcases hc.accepts_or_refused s.asyncSrt.async with hacc | href
  · rw [post_of_accepts h.invariant hc hacc]
    exact accept s c ha
  · obtain ⟨r, e, _⟩ := post_of_refused hc href a
    rw [e]
    exact wake s ha r

theorem ret (s : State σ ω) {call : Call} {r : Except Failure CallValue}
    (hr : (call, r) ≠ fulfilled) : Aside s (s.ret call r) := by
  refine of_eq rfl le_rfl fun ho => ?_
  rcases List.mem_append.mp ho with ho | ho
  · exact ho
  · exact absurd (List.mem_singleton.mp ho).symm hr

theorem emit (s : State σ ω) (e : Emission) {f : Frame} (hf : f ≠ .opened) :
    Aside s (s.emit e f) := by
  refine of_eq rfl ?_ id
  simp only [State.emit]
  rw [List.count_cons_of_ne hf]

theorem pollEvents (h : Wired s) : Aside s s.pollEvents := by
  unfold State.pollEvents
  split
  · exact of_eq rfl le_rfl id
  · exact post h (simple_epollUWait s.epid _) rfl

theorem handleEvents (h : Wired s) (events : List SRTEpollResult) :
    Aside s (events.foldl State.handleEvent s) := by
  induction events generalizing s with
  | nil => exact refl s
  | cons event events ih =>
    have hpost : Moves s (s.handleEvent event) := h.moves_post (simple_getSockState _) rfl rfl
    exact (post h (simple_getSockState _) rfl).trans (ih hpost.wired)

theorem onEvents (h : Wired s) (v : ReturnValue) : Aside s (s.onEvents v) := by
  unfold State.onEvents
  split
  · exact (handleEvents h _).trans (of_eq rfl le_rfl id)
  · exact of_eq rfl le_rfl id

theorem closeConnection (h : Wired s) (c : ℕ) (caller : CloseCaller) :
    Aside s (s.closeConnection c caller) := by
  have hcall : Aside s { s with closeCalls := s.closeCalls ++ [c] } := of_eq rfl le_rfl id
  simp only [State.closeConnection]
  split
  · exact hcall
  · rename_i conn hconn
    rw [if_pos (h.closed conn (List.mem_of_getElem? hconn))]
    cases caller with
    | user => exact hcall.trans (ret _ (by simp [fulfilled]))
    | handler fd => exact hcall.trans (wake _ rfl _)

theorem onStatus (h : Wired s) (event : SRTEpollResult) (status : ReturnValue) :
    Aside s (s.onStatus event status) := by
  unfold State.onStatus
  split
  · split
    · exact post h (simple_accept s.socket _) rfl
    · exact refl s
  split
  · split
    · exact closeConnection h _ _
    · exact refl s
  · split
    · exact emit s _ (by simp)
    · exact of_eq rfl le_rfl id

theorem resumeHandle (h : Wired s) (v : ReturnValue) (step : HandleStep) :
    Aside s (s.resumeHandle v step) := by
  cases step with
  | getSockState event => exact onStatus h event v
  | accept => exact post h (simple_epollAddUsock s.epid (.ofReply v) _) rfl
  | epollAddUsock fd =>
    have hmap : Aside s { s.setConnection fd.toValue s.connections.length with
      connections := s.connections ++ [SRTServerConnection.construct () fd.toValue] } :=
      of_eq rfl le_rfl id
    exact hmap.trans (emit _ _ (by simp))
  | close fd => exact emit s _ (by simp)

theorem resume (h : Wired s) {a : Await} (ha : a.serving = true)
    (r : Except Failure ReturnValue) : Aside s (s.resume a r) := by
  cases a with
  | epollUWait =>
    cases r with
    | ok v => exact onEvents h v
    | error e => exact of_eq rfl le_rfl id
  | handling step =>
    cases r with
    | ok v => exact resumeHandle h v step
    | error e => exact of_eq rfl le_rfl id
  | create | disposeClose | disposeAsync | opening step | closing c caller => cases ha

theorem afterListeners (s : State σ ω) {f : Frame} (hf : f ≠ .opened) (hc : f.isClosing = false) :
    Aside s (s.afterListeners f) := by
  cases f with
  | created => exact ret s (by simp [fulfilled])
  | opened => exact absurd rfl hf
  | disposed =>
    have hstage : Aside s { s with disposal := .finished } := of_eq rfl le_rfl id
    exact hstage.trans (ret _ (by simp [fulfilled]))
  | connection | disconnection => exact refl s
  | data c => exact of_eq rfl le_rfl id
  | closing c caller | closed c caller v => cases hc

theorem listenerThrew (s : State σ ω) {f : Frame} (hc : f.isClosing = false) :
    Aside s (s.listenerThrew f) := by
  cases f with
  | created | opened => exact ret s (by simp [fulfilled])
  | disposed =>
    have hstage : Aside s { s with disposal := .failed } := of_eq rfl le_rfl id
    exact hstage.trans (ret _ (by simp [fulfilled]))
  | connection | disconnection | data c => exact of_eq rfl le_rfl id
  | closing c caller | closed c caller v => cases hc

end Aside

theorem Wired.post_cases (h : Wired s) (hd : s.startedToDispose = false) {c : ApiCall}
    (hc : Simple c) (a : Await) :
    s.post c a = s.setAsync (s.asyncSrt.async.accept c false a) ∨
      ∃ e, s.post c a = s.wake a (.error e) := by
  rcases hc.accepts_or_refused s.asyncSrt.async with hacc | href
  · exact Or.inl (post_of_accepts h.invariant hc hacc a)
  · obtain ⟨r, e, hr⟩ := post_of_refused hc href a
    cases r with
    | error err => exact Or.inr ⟨err, e⟩
    | ok v =>
      have hstart := h.disposing (hr v rfl)
      simp [hd] at hstart

theorem Wired.post_adds (h : Wired s) (hd : s.startedToDispose = false) {c : ApiCall}
    (hc : Simple c) (a : Await) :
    ((s.post c a).socket, (s.post c a).epid, (s.post c a).startedToDispose, (s.post c a).stack,
      (s.post c a).returns, (s.post c a).pollEventsTimer, (s.post c a).asyncSrt.native,
      (s.post c a).asyncSrt.async.executed) =
    (s.socket, s.epid, s.startedToDispose, s.stack, s.returns, s.pollEventsTimer,
      s.asyncSrt.native, s.asyncSrt.async.executed) ∧
    (s.post c a).awaits.Perm (s.awaits ++ [a]) ∧
    (∃ l, (s.post c a).queue = s.queue ++ l ∧ (l = [] ∨ l = [a])) ∧
    (∀ x ∈ (s.post c a).microtasks, x ∈ s.microtasks ∨ ∃ e, x = (a, .error e)) ∧
    ∃ qs, (s.post c a).asyncSrt.async.posted = s.asyncSrt.async.posted ++ qs ∧ qs.length ≤ 1 ∧
      ∀ q ∈ qs, q.1.waiter = a ∧ q.2 = c.post := by
  rcases h.post_cases hd hc a with e | ⟨err, e⟩
  · rw [e]
    refine ⟨rfl, .of_eq (awaits_accept s c a), ⟨[a], ?_, Or.inr rfl⟩, fun _ => Or.inl,
      ⟨[_], rfl, le_rfl, by simp⟩⟩
    simp [State.queue, State.setAsync, AsyncSRT.accept, AsyncSRT.prepare]
  · rw [e]
    refine ⟨rfl, awaits_wake s a _, ⟨[], (List.append_nil _).symm, Or.inl rfl⟩, fun x hx => ?_,
      ⟨[], by simp [State.wake], Nat.zero_le 1, by simp⟩⟩
    exact (List.mem_append.mp hx).imp_right fun hx => ⟨err, List.mem_singleton.mp hx⟩

/-- A reply makes the oldest call in the queue the only microtask. -/
theorem Wired.delivers (h : Wired s) (he : Enabled s (.deliver : Event ω)) :
    ∃ a v, s.microtasks = [] ∧ s.queue = a :: s.deliver.queue ∧
      s.deliver.microtasks = [(a, .ok v)] ∧
      (s.deliver.socket, s.deliver.epid, s.deliver.startedToDispose, s.deliver.stack,
        s.deliver.returns, s.deliver.pollEventsTimer, s.deliver.asyncSrt.native,
        s.deliver.asyncSrt.async.executed, s.deliver.asyncSrt.async.posted) =
      (s.socket, s.epid, s.startedToDispose, s.stack, s.returns, s.pollEventsTimer,
        s.asyncSrt.native, s.asyncSrt.async.executed, s.asyncSrt.async.posted) := by
  obtain ⟨⟨_, hmicro, _⟩, hm⟩ := he
  obtain ⟨q, ks, v, e, hq, hks, _⟩ := h.deliver_eq hm
  obtain ⟨data, rest, hdata⟩ := List.exists_cons_of_ne_nil hm
  have hf := deliver_frame s.asyncSrt.async data
  have hnext : AsyncApi.next s.asyncSrt.async .deliver = s.asyncSrt.async.deliver data := by
    simp [AsyncApi.next, hdata]
  rw [hnext] at e hks
  simp only [Prod.mk.injEq] at hf
  refine ⟨q.1.waiter, v, hmicro, ?_, ?_, ?_⟩
  · simp [e, State.queue, State.wake, State.setAsync, hq, hks]
  · simp [e, State.wake, State.setAsync, hmicro]
  · simp [e, State.wake, State.setAsync, hf]

end SocketAsync
