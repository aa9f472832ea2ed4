import NodeSrt.SocketAsyncCalls

/-! # When create and open fulfil

`create` does not look at what `createSocket` returns and `open` does not look at what its
`epollAddUsock` returns; none of them knows the `undefined` that a disposing instance gives.
In runs where no such failure is taken for a success both fulfil only after their native
calls have succeeded. -/
namespace SocketAsync

open AsyncValues
open TransitionSystem
open AsyncApi
open NativeSrt

variable {σ ω : Type*} {lib : Libsrt σ ω} {p : Config} {s t u : State σ ω} {x : Prompt}
  {e : Event ω} {n : σ}

/-! ## What is promised -/

def Created (s : State σ ω) : Prop := ∃ u, s.Gave createPost (.number u)

/-- The listening socket of a server has been added to its epoll. -/
def Subscribed (p : Config) (s : State σ ω) : Prop :=
  ∃ epid a v, Chained p s epid a ∧ s.Gave (subscribePost epid a) v

def Connected (p : Config) (s : State σ ω) : Prop :=
  p.kind = .client ∧ ∃ a v, s.Gave (connectPost p a) v

def Accomplished (p : Config) (s : State σ ω) : Call → Prop
  | .create => Created s
  | .opening =>
    match p.kind with
    | .server => Subscribed p s
    | .client => Connected p s
  | .dispose | .close _ => True

/-- How `create` and `open` settle, and what starts the polling. -/
structure FulfilsOnSuccess (p : Config) (s : State σ ω) : Prop where
  settled : ∀ call r, (call, r) ∈ s.returns → call = .create ∨ call = .opening →
    (∃ e, r = .error e) ∨ r = .ok .this ∧ Accomplished p s call
  created : .created ∈ s.log → Created s
  opened : .opened ∈ s.log → ∃ epid a, Chained p s epid a
  polls : (∃ q ∈ s.asyncSrt.async.posted, q.2.method = .epollUWait) → Subscribed p s

/-- The function that awaits, if it is `create` or `open`. -/
def Await.starter : Await → Option Call
  | .create => some .create
  | .opening _ => some .opening
  | _ => none

def RejectsOnFailure (s : State σ ω) : Prop :=
  ∀ a r rest call, s.microtasks = (a, r) :: rest → a.starter = some call →
    (∃ e, r = .error e) ∨ r = .ok (.number SRT_ERROR) →
    ∃ e, { s with microtasks := rest }.resume a r =
      { s with microtasks := rest }.ret call (.error e)

/-! ## Conditions on a run -/

/-- The failures that a function takes for a success. -/
def Await.misses : Await → ReturnValue → Bool
  | .create, v => v = .number SRT_ERROR
  | .opening .epollAddUsock, v => v = .number SRT_ERROR || v = .undefined
  | .opening _, v => v = .undefined
  | _, _ => false

def State.missesFailure (s : State σ ω) : Bool :=
  match s.microtasks with
  | (a, .ok v) :: _ => a.misses v
  | _ => false

def FailuresSeen (s : State σ ω) : Event ω → Prop
  | .create => s.socket = .null → s.startedToDispose = false
  | .opening => s.socket ≠ .null → s.startedToDispose = false
  | .resume => s.missesFailure = false
  | _ => True

instance (s : State σ ω) : (e : Event ω) → Decidable (FailuresSeen s e)
  | .create => inferInstanceAs (Decidable (s.socket = .null → s.startedToDispose = false))
  | .opening => inferInstanceAs (Decidable (s.socket ≠ .null → s.startedToDispose = false))
  | .resume => inferInstanceAs (Decidable (s.missesFailure = false))
  | .dispose | .closeConnection _ | .listenerReturn _ | .resumeDispose | .exec | .deliver
  | .pollTimer | .pollDispose | .exited _ | .env _ => isTrue trivial

/-! ## Rejections -/

theorem rejectsOnFailure (h : FailuresSeen s (.resume : Event ω)) : RejectsOnFailure s := by
  intro a r rest call hq hcall hr
  have hseen : s.missesFailure = false := h
  rcases hr with ⟨e, rfl⟩ | rfl
  · cases a with
    | create | opening step =>
      cases hcall
      exact ⟨e, rfl⟩
    | disposeClose | disposeAsync | epollUWait | handling step | closing c caller => cases hcall
  · simp only [State.missesFailure, hq] at hseen
    cases a with
    | create => simp [Await.misses] at hseen
    | opening step =>
      cases hcall
      cases step with
      | bind | listen | epollCreate | connect => exact ⟨_, rfl⟩
      | epollAddUsock => simp [Await.misses] at hseen
    | disposeClose | disposeAsync | epollUWait | handling step | closing c caller => cases hcall

/-! ## The invariant -/

theorem Recalls.created (k : Recalls s t) (h : Created s) : Created t := by
  obtain ⟨u, hg⟩ := h
  exact ⟨u, k.gave hg⟩

theorem Recalls.subscribed (k : Recalls s t) (h : Subscribed p s) : Subscribed p t := by
  obtain ⟨epid, a, v, hc, hg⟩ := h
  exact ⟨epid, a, v, k.chained hc, k.gave hg⟩

theorem Recalls.connected (k : Recalls s t) (h : Connected p s) : Connected p t := by
  obtain ⟨hp, a, v, hg⟩ := h
  exact ⟨hp, a, v, k.gave hg⟩

theorem Recalls.accomplished (k : Recalls s t) {call : Call} (h : Accomplished p s call) :
    Accomplished p t call := by
  cases call with
  | create => exact k.created h
  | opening =>
    cases hp : p.kind with
    | server =>
      simp only [Accomplished, hp] at h ⊢
      exact k.subscribed h
    | client =>
      simp only [Accomplished, hp] at h ⊢
      exact k.connected h
  | dispose | close c => trivial

/-- What is promised, and that the listeners of `created` run when it is so. -/
structure Earned (p : Config) (s : State σ ω) : Prop extends FulfilsOnSuccess p s where
  creating : .created ∈ s.stack → Created s

theorem initial_earned (p : Config) (n : σ) : Earned p (initial n : State σ ω) := by
  constructor
  · constructor <;> simp [initial, Backed.initial, AsyncApi.initial]
  · simp [initial]

theorem Grounded.created (h : Grounded p s) (hw : Wired s)
    (hcalled : ∀ y ∈ s.asyncSrt.async.executed, ∃ m, y.2 = (lib.call m y.1).2) {v : ReturnValue}
    (hx : (.create, .ok v) ∈ s.microtasks) (hv : v ≠ .number SRT_ERROR) : Created s := by
  have hr := hw.replied (Or.inl rfl) (by simp [Await.method]) hx
  obtain ⟨q, hq, hwait, hg⟩ := hr.gave hv
  have hj := h.justified q hq
  rw [hwait] at hj
  have hpost : q.2 = createPost := hj
  rw [hpost] at hg
  obtain ⟨m, hm⟩ := hcalled _ hg.1
  obtain ⟨k, hk⟩ := lib.createSocket_number m false
  have hresult : resultOf (lib.createSocket m false).2 = v := congrArg resultOf hm.symm
  rw [hk] at hresult
  exact ⟨k, hresult ▸ hg⟩

theorem Grounded.subscribed (h : Grounded p s) {v : ReturnValue}
    (hx : (.opening .epollAddUsock, .ok v) ∈ s.microtasks)
    (hv : Await.misses (.opening .epollAddUsock) v = false) : Subscribed p s := by
  simp only [Await.misses, Bool.or_eq_false_iff, decide_eq_false_iff_not] at hv
  have hr := h.replied hx (by simp [Await.method]) (Or.inl hv.2)
  obtain ⟨q, hq, hwait, hg⟩ := hr.gave hv.1
  have hj := h.justified q hq
  rw [hwait] at hj
  obtain ⟨epid, a, hc, he⟩ := hj
  exact ⟨epid, a, v, hc, he ▸ hg⟩

theorem Grounded.connected (h : Grounded p s) {v : ReturnValue}
    (hx : (.opening .connect, .ok v) ∈ s.microtasks) (hv : v ≠ .number SRT_ERROR)
    (hd : v ≠ .undefined) : Connected p s := by
  have hr := h.replied hx (by simp [Await.method]) (Or.inl hd)
  obtain ⟨q, hq, hwait, hg⟩ := hr.gave hv
  have hj := h.justified q hq
  rw [hwait] at hj
  obtain ⟨hp, a, -, he⟩ := hj
  exact ⟨hp, a, v, he ▸ hg⟩

theorem Subscribed.accomplished (h : Subscribed p s) : Accomplished p s .opening := by
  obtain ⟨epid, a, v, hc, hg⟩ := h
  simp only [Accomplished, hc.bound.1]
  exact ⟨epid, a, v, hc, hg⟩

theorem Connected.accomplished (h : Connected p s) : Accomplished p s .opening := by
  simp only [Accomplished, h.1]
  exact h

namespace Earned

theorem frame (h : Earned p s) (k : Recalls s t) (hr : ∀ y ∈ t.returns, y ∈ s.returns)
    (hlog : ∀ y ∈ t.log, y ∈ s.log ∨ y = .disposed) (hs : .created ∈ t.stack → .created ∈ s.stack)
    (hp : ∀ q ∈ t.asyncSrt.async.posted, q ∈ s.asyncSrt.async.posted ∨
      q.2.method ≠ .epollUWait) : Earned p t where
  settled call r hm hc :=
    (h.settled call r (hr _ hm) hc).imp id (And.imp id k.accomplished)
  created hm := k.created (h.created ((hlog _ hm).resolve_right (by simp)))
  opened hm := by
    obtain ⟨epid, a, hc⟩ := h.opened ((hlog _ hm).resolve_right (by simp))
    exact ⟨epid, a, k.chained hc⟩
  polls := by
    rintro ⟨q, hq, hm⟩
    exact k.subscribed (h.polls ⟨q, (hp q hq).resolve_right fun hn => hn hm, hm⟩)
  creating hm := k.created (h.creating (hs hm))

/-- What a function goes on with is no failure that it misses. -/
theorem seen (hx : Prompted s e x u) (hn : FailuresSeen s e) {a : Await} {v : ReturnValue}
    (he : x = .await a (.ok v)) : (a, .ok v) ∈ s.microtasks ∧ a.misses v = false := by
  subst he
  cases hx with
  | await hs hq =>
    have hseen : s.missesFailure = false := hn
    exact ⟨hq ▸ List.mem_cons_self, by simpa only [State.missesFailure, hq] using hseen⟩

theorem turn_settles (h : Earned p s) (hg : Grounded p s) (hx : Prompted s e x u)
    (hn : FailuresSeen s e) {y : Call × Except Failure CallValue} (hy : Returns u x y)
    (hc : y.1 = .create ∨ y.1 = .opening) :
    (∃ e, y.2 = .error e) ∨ y.2 = .ok .this ∧ Accomplished p s y.1 := by
  cases hy with
  | fails x call e => exact Or.inl ⟨e, rfl⟩
  | creates =>
    cases hx with
    | listeners hs => exact Or.inr ⟨rfl, h.creating (hs ▸ List.mem_cons_self)⟩
  | opens =>
    obtain ⟨hmem, hv⟩ := seen hx hn rfl
    exact Or.inr ⟨rfl, (hg.subscribed hmem hv).accomplished⟩
  | connects hv =>
    obtain ⟨hmem, hd⟩ := seen hx hn rfl
    exact Or.inr ⟨rfl, (hg.connected hmem hv (by simpa [Await.misses] using hd)).accomplished⟩
  | createsNull hs hd =>
    cases hx with
    | user he =>
      cases e <;> cases he
      cases (hn hs).symm.trans hd
  | opensNull hs hd =>
    cases hx with
    | user he =>
      cases e <;> cases he
      cases (hn hs).symm.trans hd
  | disposes | closes => simp at hc

/-- The event `opened` comes after three calls that succeeded. -/
theorem turn_opens (hg : Grounded p s) (hx : Prompted s e x u) (hn : FailuresSeen s e)
    (ho : Emits x .opened) : ∃ epid a, Chained p s epid a := by
  cases ho with
  | @opened v hv =>
  obtain ⟨hmem, hd⟩ := seen hx hn rfl
  have hr := hg.replied hmem (by simp [Await.method]) (Or.inl (by simpa [Await.misses] using hd))
  obtain ⟨q, hq, hwait, hgave⟩ := hr.gave hv
  have hj := hg.justified q hq
  rw [hwait] at hj
  obtain ⟨hbound, ⟨a, hheard⟩, hpost⟩ := hj
  exact ⟨.ofReply v, a, hbound, hheard, v, hpost ▸ hgave, rfl⟩

theorem turn_polls (h : Earned p s) (hg : Grounded p s) (hw : Wired s) (hx : Prompted s e x u)
    (hn : FailuresSeen s e) {a : Await} {post : AsyncSRTWorkerPost} (hc : Calls p u x a post)
    (hm : post.method = .epollUWait) : Subscribed p s := by
  cases hc with
  | poll =>
    obtain ⟨hmem, hv⟩ := seen hx hn rfl
    exact hg.subscribed hmem hv
  | pollAgain =>
    cases hx with
    | timer hi ht =>
      obtain ⟨v, q, hq, -, hwait, -⟩ := hg.timer ht
      exact h.polls ⟨q, hq, hw.method_of_waiter hq hwait rfl⟩
  | bind | connect | listen | epollCreate | subscribe | status | accept | add => cases hm

theorem turn (h : Earned p s) (hg : Grounded p s) (hw : Wired s) (hx : Prompted s e x u)
    (hn : FailuresSeen s e) (ht : Turn p u x t) : Earned p t := by
  obtain ⟨-, qs, ms, hp, -, -, hqs, -⟩ := ht.sends
  have hsame := hx.same
  simp only [Prod.mk.injEq] at hsame
  obtain ⟨hasync, -, -, -, -, -, hlog, hreturns, -⟩ := hsame
  have k : Recalls s t := hx.recalls.trans ht.recalls
  refine ⟨⟨fun call r hm hc => ?_, fun hm => ?_, fun hm => ?_, ?_⟩, fun hm => ?_⟩
  · rcases ht.returns _ hm with hm | hy
    · exact (h.settled call r (hreturns ▸ hm) hc).imp id (And.imp id k.accomplished)
    · exact (h.turn_settles hg hx hn hy hc).imp id (And.imp id k.accomplished)
  · rcases ht.log _ hm with hm | ho
    · exact k.created (h.created (hlog ▸ hm))
    · cases ho
  · rcases ht.log _ hm with hm | ho
    · obtain ⟨epid, a, hc⟩ := h.opened (hlog ▸ hm)
      exact ⟨epid, a, k.chained hc⟩
    · obtain ⟨epid, a, hc⟩ := turn_opens hg hx hn ho
      exact ⟨epid, a, k.chained hc⟩
  · rintro ⟨q, hq, hm⟩
    rw [hp] at hq
    rcases List.mem_append.mp hq with hq | hq
    · exact k.subscribed (h.polls ⟨q, hasync ▸ hq, hm⟩)
    · exact k.subscribed (h.turn_polls hg hw hx hn (hqs q hq).1 hm)
  · rcases ht.stack _ hm with hm | ⟨-, hserves | ⟨ho, -⟩⟩
    · exact k.created (h.creating (hx.stack _ hm))
    · cases hserves
    · cases ho

theorem step_created (h : Earned p s) (hc : Created s) {v : ReturnValue}
    {rest : List (Await × Except Failure ReturnValue)} :
    Earned p ({ s with microtasks := rest, socket := .ofReply v }.emit .created .created) := by
  have k : Recalls s
      ({ s with microtasks := rest, socket := .ofReply v }.emit .created .created) := .of_eq rfl
  refine ⟨⟨fun call r hm hcall => ?_, fun _ => k.created hc, fun hm => ?_, fun hp => ?_⟩,
    fun _ => k.created hc⟩
  · exact (h.settled call r hm hcall).imp id (And.imp id k.accomplished)
  · have hm := (List.mem_append.mp hm).resolve_right (by simp)
    obtain ⟨epid, a, hc⟩ := h.opened hm
    exact ⟨epid, a, k.chained hc⟩
  · exact k.subscribed (h.polls hp)

theorem step_closes (h : Earned p s) (hw : Wired s) (timer : Bool) :
    Earned p ({ s with
      pollEventsTimer := timer
      startedToDispose := true
      disposal := .closing }.post (.close s.socket.toValue) .disposeClose) := by
  obtain ⟨hf, he, qs, ms, hp, -, -, hqs, -⟩ :=
    (hw.closing timer).post_sends (simple_close s.socket) .disposeClose
  simp only [Prod.mk.injEq] at hf he
  obtain ⟨hstack, hlog, -, hret, -⟩ := he
  generalize State.post _ _ _ = t at *
  refine h.frame ⟨fun q hq => hp ▸ List.mem_append_left _ hq, fun y hy => hf.2.2.2.1 ▸ hy⟩
    (fun y hy => hret ▸ hy) (fun y hy => Or.inl (hlog ▸ hy)) (fun hs => hstack ▸ hs) fun q hq => ?_
  rw [hp] at hq
  rcases List.mem_append.mp hq with hq | hq
  · exact Or.inl hq
  · rw [(hqs q hq).2.1]
    exact Or.inr (by simp [ApiCall.post])

theorem step_closed (h : Earned p s) (hw : Wired s) {v : ReturnValue}
    {rest : List (Await × Except Failure ReturnValue)}
    (hq : s.microtasks = (.disposeClose, .ok v) :: rest) :
    Earned p { s with microtasks := rest }.disposeAsync := by
  obtain ⟨hf, -⟩ := (hw.pop hq).disposeAsync_frame
  simp only [Prod.mk.injEq] at hf
  obtain ⟨-, -, -, hlog, hstack, hret, -, hp, hexec⟩ := hf
  generalize State.disposeAsync _ = t at *
  exact h.frame (.of_eq (by rw [hp, hexec])) (fun y hy => hret ▸ hy)
    (fun y hy => Or.inl (hlog ▸ hy)) (fun hs => hstack ▸ hs) fun q hq => Or.inl (hp ▸ hq)

theorem step (h : Earned p s) (hg : Grounded p s) (hw : Wired s)
    (hcalled : ∀ y ∈ s.asyncSrt.async.executed, ∃ m, y.2 = (lib.call m y.1).2)
    (hc : Change (nodeSRT lib) p s e t) (hn : FailuresSeen s e) : Earned p t := by
  cases hc with
  | turns hx _ ht => exact h.turn hg hw hx hn ht
  | delivers he =>
    obtain ⟨-, -, -, -, -, hf⟩ := hw.delivers he
    obtain ⟨q, ks, v, e, -⟩ := hw.deliver_eq he.2
    have hlog : s.deliver.log = s.log := by rw [e]; rfl
    simp only [Prod.mk.injEq] at hf
    obtain ⟨-, -, -, hstack, hret, -, -, hexec, hp⟩ := hf
    exact h.frame (.of_eq (by rw [hp, hexec])) (fun y hy => hret ▸ hy)
      (fun y hy => Or.inl (hlog ▸ hy)) (fun hs => hstack ▸ hs) fun q hq => Or.inl (hp ▸ hq)
  | creates =>
    refine h.frame ⟨fun q hq => List.mem_append_left _ hq, fun y hy => hy⟩ (fun y hy => hy)
      (fun y hy => Or.inl hy) id fun q hq => ?_
    rcases List.mem_append.mp hq with hq | hq
    · exact Or.inl hq
    · cases List.mem_singleton.mp hq
      exact Or.inr (by simp [ApiCall.post])
  | created hs hq =>
    have hseen : s.missesFailure = false := hn
    simp only [State.missesFailure, hq, Await.misses, decide_eq_false_iff_not] at hseen
    exact h.step_created (hg.created hw hcalled (hq ▸ List.mem_cons_self) hseen)
  | closes => exact h.step_closes hw _
  | vacuous | disposed =>
    refine h.frame (.of_eq rfl) (fun y hy => hy) (fun y hy => ?_) (fun hs => ?_) fun q => Or.inl
    · exact (List.mem_append.mp hy).imp id List.mem_singleton.mp
    · exact (List.mem_cons.mp hs).resolve_left (by simp)
  | closed _ hq => exact h.step_closed hw hq
  | executes hq =>
    obtain ⟨-, hu, -⟩ := hw.executing hq
    refine h.frame ⟨fun _ hq => hq, fun y hy => ?_⟩ (fun y hy => hy) (fun y hy => Or.inl hy) id
      fun q => Or.inl
    simpa [exec_executed _ hu] using Or.inl hy
  | waits =>
    simp only [AsyncApi.next]
    split
    · exact h.frame (.of_eq rfl) (fun y hy => hy) (fun y hy => Or.inl hy) id fun q => Or.inl
    · exact h
  | terminates _ hd =>
    have hl := hw.invariant.disposal.clear (by simp [hd]) (by simp [hd])
    have hsame := hw.terminateWorker_same hl
    simp only [Prod.mk.injEq] at hsame
    obtain ⟨hp, hexec, -⟩ := hsame
    exact h.frame (.of_eq (by simp [State.setAsync, hp, hexec])) (fun y hy => hy)
      (fun y hy => Or.inl hy) id fun q hq => Or.inl (hp ▸ hq)
  | exits | env =>
    exact h.frame (.of_eq rfl) (fun y hy => hy) (fun y hy => Or.inl hy) id fun q => Or.inl

end Earned

/-! ## The result -/

/-- In every run in which no failure is missed, `create` and `open` fulfil on success only. -/
theorem fulfils_on_success
    (h : ((machine (nodeSRT lib) p).restrict FailuresSeen).Execution (initial n) s) :
    FulfilsOnSuccess p s ∧ (FailuresSeen s (.resume : Event ω) → RejectsOnFailure s) := by
  have main : (machine (nodeSRT lib) p).Execution (initial n) s ∧ Earned p s := by
    refine h.invariant
      (I := fun s => (machine (nodeSRT lib) p).Execution (initial n) s ∧ Earned p s)
      ⟨.refl _, initial_earned p n⟩ fun u e hu he => ?_
    obtain ⟨hrun, hearned⟩ := hu
    obtain ⟨hw, -, hg⟩ := execution_grounded hrun
    exact ⟨hrun.tail he.1, hearned.step hg hw (execution_called hrun) (hw.changes he.1) he.2⟩
  exact ⟨main.2.toFulfilsOnSuccess, rejectsOnFailure⟩

theorem fulfils_on_success_opened :
    let s := serverMachine.runTrace (initial .empty) openRun
    fulfilled ∈ s.returns ∧ FulfilsOnSuccess localServer s := by
  intro s
  have h : (serverMachine.restrict FailuresSeen).Execution (initial .empty) _ :=
    Machine.execution_of_trace _ _ openRun (by decide)
  rw [Machine.runTrace_restrict] at h
  exact ⟨by decide, (fulfils_on_success h).1⟩

/-- A listener of `opened` disposes of the server, so that its socket is closed before it is
to be added to the epoll. -/
def disposedOpeningRun : List (Event TableEvent) :=
  createRun ++ [.opening] ++ answer ++ answer ++ answer ++ [.dispose, .listenerReturn false] ++
    [.exec, .exec, .deliver, .resume, .deliver, .resume]

theorem open_fulfils_unsubscribed :
    ¬ ∀ s : State Table TableEvent, serverMachine.Execution (initial .empty) s →
      FulfilsOnSuccess localServer s := by
  intro h
  have hr := serverMachine.execution_of_trace (initial .empty) disposedOpeningRun (by decide)
  rcases (h _ hr).settled .opening (.ok .this) (by decide) (Or.inr rfl) with ⟨e, he⟩ | ⟨-, hsub⟩
  · cases he
  · obtain ⟨epid, a, v, -, hg⟩ := hsub
    have hfails : ∀ y ∈ (serverMachine.runTrace (initial .empty)
        disposedOpeningRun).asyncSrt.async.executed,
        y.1.method = .epollAddUsock → y.2.toOption = none := by decide
    cases hfails _ hg.1 rfl

end SocketAsync
