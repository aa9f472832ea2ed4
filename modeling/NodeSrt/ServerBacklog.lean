import NodeSrt.SocketAsyncCalls

/-! # Accepting without blocking

`accept` of a blocking socket waits for a client, and every call behind it in the queue of
the worker waits with it. A server calls it after a poll that reported its socket. No other
`accept` can take the clients in between, since the native `Accept` closes the socket. -/
namespace SocketAsync

open AsyncValues
open TransitionSystem
open AsyncApi
open NativeSrt

variable {σ ω : Type*} {lib : Libsrt σ ω} {backlog : σ → ℤ → ℕ} {p : Config} {s t : State σ ω}
  {e : Event ω} {n : σ}

def Polled (s : State σ ω) (event : SRTEpollResult) : Prop :=
  ∃ post events, post.method = .epollUWait ∧
    (post, .ok (.epollResults events)) ∈ s.asyncSrt.async.executed ∧ event ∈ events

/-- The socket that `listen` was called for listens, or has ended; and where it was reported
clients wait for it as long as it listens. -/
structure Waiting (lib : Libsrt σ ω) (backlog : σ → ℤ → ℕ) (s : State σ ω) : Prop where
  listens : ∀ u, u ≠ SRT_ERROR → Heard s (.number u) →
    lib.Listening s.asyncSrt.native u ∨ ¬ lib.Open s.asyncSrt.native u
  clients : ∀ event, event.socket ≠ SRT_ERROR → Polled s event →
    Heard s (.number event.socket) → lib.Listening s.asyncSrt.native event.socket →
    0 < backlog s.asyncSrt.native event.socket

theorem initial_waiting (n : σ) : Waiting lib backlog (initial n : State σ ω) := by
  constructor <;> simp [Heard, State.Gave, Polled, initial, Backed.initial, AsyncApi.initial]

theorem Grounded.heard_owned (h : Grounded p s) (hw : Wired s) {a : Slot} (ha : Heard s a) :
    Owned s a := by
  obtain ⟨v, hx, -⟩ := ha
  obtain ⟨q, hq, he⟩ := hw.posted_of_executed hx
  have hm := hw.matched q hq
  have hj := h.justified q hq
  rw [he] at hm hj
  rw [Await.eq_listen hm] at hj
  obtain ⟨-, b, ho, hb⟩ := hj
  exact listenPost_injective hb ▸ ho

theorem Await.eq_epollUWait {a : Await} (h : a.method = some .epollUWait) : a = .epollUWait := by
  cases a with
  | epollUWait => rfl
  | opening step => cases step <;> cases h
  | handling step => cases step <;> cases h
  | create | disposeClose | disposeAsync | closing c caller => cases h

/-- An instance that polls has made its socket listen. -/
theorem Grounded.heard_of_polling (h : Grounded p s) (hw : Wired s)
    {q : OnResult Await × AsyncSRTWorkerPost} (hq : q ∈ s.asyncSrt.async.posted)
    (hm : q.2.method = .epollUWait) : ∃ a, Heard s a := by
  have hj := h.justified q hq
  have hmatch := hw.matched q hq
  rw [hm] at hmatch
  rw [Await.eq_epollUWait hmatch] at hj
  obtain ⟨epid, v, -, hr, -⟩ := hj
  obtain ⟨epid, a, hchain⟩ := h.chained_of_added hr
  exact ⟨a, hchain.heard⟩

namespace Waiting

theorem of_eq (h : Waiting lib backlog s) (he : (t.asyncSrt.native, t.asyncSrt.async.executed) =
    (s.asyncSrt.native, s.asyncSrt.async.executed)) : Waiting lib backlog t := by
  simp only [Prod.mk.injEq] at he
  obtain ⟨hn, hx⟩ := he
  refine ⟨fun u hu hh => ?_, fun event hu hp hh => ?_⟩
  · rw [Heard] at hh
    simp only [State.Gave, hx] at hh
    exact hn ▸ h.listens u hu hh
  · simp only [Polled, hx] at hp
    simp only [Heard, State.Gave, hx] at hh
    exact hn ▸ h.clients event hu hp hh

theorem step_env (h : Waiting lib backlog s) (hl : lib.Lawful) (hb : lib.Backlogged backlog)
    (hout : ∀ u, u ≠ SRT_ERROR → Heard s (.number u) → lib.handedOut s.asyncSrt.native u) {w : ω}
    (he : (t.asyncSrt.native, t.asyncSrt.async.executed) =
      (lib.env s.asyncSrt.native w, s.asyncSrt.async.executed)) : Waiting lib backlog t := by
  simp only [Prod.mk.injEq] at he
  obtain ⟨hn, hx⟩ := he
  have hact : ∀ {P : Action ω → Prop}, P (.env w) →
      lib.Acts P s.asyncSrt.native (lib.env s.asyncSrt.native w) := fun hp => .one _ hp
  refine ⟨fun u hu hh => ?_, fun event hu hp hh => ?_⟩
  · simp only [Heard, State.Gave, hx] at hh
    rw [hn]
    exact hl.act_listening (hout u hu hh) (h.listens u hu hh) (.env w)
  · simp only [Polled, hx] at hp
    simp only [Heard, State.Gave, hx] at hh
    rw [hn]
    exact hb.waits hl (hact (by simp)) (hout _ hu hh) (h.listens _ hu hh)
      (h.clients event hu hp hh)

theorem polled_cases {data : AsyncSRTWorkerPost} {o : Outcome}
    (hx : t.asyncSrt.async.executed = s.asyncSrt.async.executed ++ [(data, o)])
    {event : SRTEpollResult} (hp : Polled t event) : Polled s event ∨
      data.method = .epollUWait ∧ ∃ events, o = .ok (.epollResults events) ∧ event ∈ events := by
  obtain ⟨post, events, hm, hmem, he⟩ := hp
  rw [hx] at hmem
  rcases List.mem_append.mp hmem with hmem | hmem
  · exact Or.inl ⟨post, events, hm, hmem, he⟩
  · obtain ⟨rfl, rfl⟩ := Prod.mk.inj (List.mem_singleton.mp hmem)
    exact Or.inr ⟨hm, events, rfl, he⟩

/-- A poll of the server reports its socket while clients wait. -/
theorem clients_of_poll (hb : lib.Backlogged backlog) (hg : Grounded p s) (hw : Wired s)
    (hcalled : ∀ y ∈ s.asyncSrt.async.executed, ∃ m, y.2 = (lib.call m y.1).2)
    {q : OnResult Await × AsyncSRTWorkerPost} (hq : q ∈ s.asyncSrt.async.posted)
    (hm : q.2.method = .epollUWait) {events : List SRTEpollResult}
    (ho : (lib.call s.asyncSrt.native q.2).2 = .ok (.epollResults events)) {event : SRTEpollResult}
    (he : event ∈ events) (hl : lib.Listening s.asyncSrt.native event.socket) :
    0 < backlog s.asyncSrt.native event.socket := by
  have hj := hg.justified q hq
  have hmatch := hw.matched q hq
  rw [hm] at hmatch
  rw [Await.eq_epollUWait hmatch] at hj
  obtain ⟨epid, v, hmade, -, hpost⟩ := hj
  obtain ⟨k, rfl⟩ := hmade.number hcalled
  rw [hpost] at ho
  have ho : (lib.epollUWait s.asyncSrt.native k State.EPOLLUWAIT_TIMEOUT_MS).2 =
      .ok (.epollResults events) := ho
  simp only [Libsrt.epollUWait, Except.ok.injEq, ReturnValue.epollResults.injEq] at ho
  exact hb.reported _ _ _ _ event (ho ▸ he) hl

theorem step_exec (h : Waiting lib backlog s) (hl : lib.Lawful) (hb : lib.Backlogged backlog)
    (ho : Ordered s) (hg : Grounded p s) (hw : Wired s)
    (hcalled : ∀ y ∈ s.asyncSrt.async.executed, ∃ m, y.2 = (lib.call m y.1).2)
    (hout : ∀ u, u ≠ SRT_ERROR → Heard s (.number u) → lib.handedOut s.asyncSrt.native u)
    {data : AsyncSRTWorkerPost} {rest : List AsyncSRTWorkerPost}
    (hq : s.asyncSrt.async.toWorker = data :: rest)
    (he : (t.asyncSrt.native, t.asyncSrt.async.executed) =
      ((lib.call s.asyncSrt.native data).1,
        s.asyncSrt.async.executed ++ [(data, (lib.call s.asyncSrt.native data).2)])) :
    Waiting lib backlog t := by
  simp only [Prod.mk.injEq] at he
  obtain ⟨hn, hx⟩ := he
  obtain ⟨hwork, -, q, hmem, hdata, -⟩ := hw.executing hq
  have hheard : ∀ {u}, Heard t (.number u) → Heard s (.number u) ∨
      data = listenPost (.number u) ∧ ∃ v, (lib.call s.asyncSrt.native data).2 = .ok v := by
    rintro u ⟨v, hmem, hv⟩
    rw [hx] at hmem
    refine (List.mem_append.mp hmem).imp (fun hmem => ⟨v, hmem, hv⟩) fun hmem => ?_
    obtain ⟨hpost, hok⟩ := Prod.mk.inj (List.mem_singleton.mp hmem)
    exact ⟨hpost.symm, v, hok.symm⟩
  refine ⟨fun u hu hh => ?_, fun event hu hp hh hlisten => ?_⟩
  · rw [hn]
    rcases hheard hh with hh | ⟨rfl, v, hok⟩
    · exact hl.listening_or_ended (lib.acts_call (P := fun _ => True) (fun _ _ => trivial)
        fun _ _ => trivial) (hout u hu hh) (h.listens u hu hh)
    · exact Or.inl (hl.listens hok)
  rw [hn] at hlisten ⊢
  have hpolls : ∃ q ∈ s.asyncSrt.async.posted, q.2.method = .epollUWait := by
    rcases polled_cases hx hp with ⟨post, events, hm, hmem, -⟩ | ⟨hm, -⟩
    · obtain ⟨q, hq, he⟩ := hw.posted_of_executed hmem
      exact ⟨q, hq, he ▸ hm⟩
    · exact ⟨q, hmem, hdata ▸ hm⟩
  -- the socket that listens is one, so that it listened before the poll
  have hh : Heard s (.number event.socket) := by
    rcases hheard hh with hh | ⟨hpost, -⟩
    · exact hh
    · obtain ⟨q', hq', hm⟩ := hpolls
      obtain ⟨a, ha⟩ := hg.heard_of_polling hw hq' hm
      have hmatch := hw.matched q hmem
      rw [hdata, hpost] at hmatch
      have hfinal := (ho.final q hmem (Await.eq_listen hmatch)).2.2 hwork
      rw [hdata, hpost] at hfinal
      rw [listenPost_injective hfinal, ← ho.heard_eq hw hwork ha]
      exact ha
  have hhanded := hout _ hu hh
  by_cases haccept : data = ⟨.accept, [.number event.socket]⟩
  · subst haccept
    exact absurd hlisten.isOpen (hl.accept_ends hhanded)
  · refine hb.waits hl ?_ hhanded (h.listens _ hu hh) (fun hbefore => ?_) hlisten
    · refine Libsrt.acts_call_of (fun a _ ha => ha _) (fun u _ => by simp) fun u hpost he => ?_
      obtain rfl : u = event.socket := by simpa using he
      exact haccept hpost
    · rcases polled_cases hx hp with hp | ⟨hm, events, hok, hevent⟩
      · exact h.clients event hu hp hh hbefore
      · rw [← hdata] at hm hok
        exact clients_of_poll hb hg hw hcalled hmem hm hok hevent hbefore

end Waiting

theorem Reported.polled (hw : Wired s) {event : SRTEpollResult} (h : Reported s event) :
    Polled s event := by
  obtain ⟨events, ⟨q, hq, o, hwait, hx, ho⟩, he⟩ := h
  cases o with
  | ok v =>
    obtain rfl : ReturnValue.epollResults events = v := ho
    exact ⟨q.2, events, hw.method_of_waiter hq hwait rfl, hx, he⟩
  | error e => cases ho

theorem Await.eq_accept {a : Await} (h : a.method = some .accept) : a = .handling .accept := by
  cases a with
  | handling step => cases step <;> first | rfl | cases h
  | opening step => cases step <;> cases h
  | create | disposeClose | disposeAsync | epollUWait | closing c caller => cases h

theorem execution_waiting (hl : lib.Lawful) (hb : lib.Backlogged backlog)
    (h : (machine (nodeSRT lib) p).Execution (initial n) s) : Waiting lib backlog s := by
  have main : (machine (nodeSRT lib) p).Execution (initial n) s ∧ Waiting lib backlog s := by
    refine h.invariant
      (I := fun s => (machine (nodeSRT lib) p).Execution (initial n) s ∧ Waiting lib backlog s)
      ⟨.refl _, initial_waiting n⟩ fun u e hu he => ?_
    obtain ⟨hrun, hwait⟩ := hu
    obtain ⟨hw, ho, hg⟩ := execution_grounded hrun
    refine ⟨hrun.tail he, ?_⟩
    have hout : ∀ v, v ≠ SRT_ERROR → Heard u (.number v) → lib.handedOut u.asyncSrt.native v :=
      fun v hv hh => execution_handedOut hl hrun v
        ((hg.makes_of_owned (hg.heard_owned hw hh)).resolve_left hv)
    have hc : Change (nodeSRT lib) p u e (next (nodeSRT lib) p u e) := hw.changes he
    show Waiting lib backlog (next (nodeSRT lib) p u e)
    cases hc.acts hw with
    | none heq => exact hwait.of_eq heq
    | exec hq heq =>
      simp only [Prod.mk.injEq] at heq
      exact hwait.step_exec hl hb ho hg hw (execution_called hrun) hout hq
        (Prod.ext heq.1 heq.2.1)
    | env heq =>
      simp only [Prod.mk.injEq] at heq
      exact hwait.step_env hl hb hout (Prod.ext heq.1 heq.2.1)
  exact main.2

/-- An `accept` that the worker executes on a socket that still listens finds a client. -/
theorem accept_never_blocks (hl : lib.Lawful) (hb : lib.Backlogged backlog)
    (h : (machine (nodeSRT lib) p).Execution (initial n) s) {rest : List AsyncSRTWorkerPost}
    {u : ℤ} (hq : s.asyncSrt.async.toWorker = ⟨.accept, [.number u]⟩ :: rest)
    (hu : u ≠ SRT_ERROR) (hlisten : lib.Listening s.asyncSrt.native u) :
    0 < backlog s.asyncSrt.native u := by
  obtain ⟨hw, ho, hg⟩ := execution_grounded h
  obtain ⟨-, -, q, hmem, hdata, -⟩ := hw.executing hq
  have hmatch := hw.matched q hmem
  have hj := hg.justified q hmem
  rw [hdata] at hmatch hj
  rw [Await.eq_accept hmatch] at hj
  obtain ⟨event, hreported, hheard, -, hpost⟩ := hj
  obtain rfl : u = event.socket := by
    simpa [acceptPost, ApiCall.post, Slot.toValue] using hpost
  exact (execution_waiting hl hb h).clients event hu (hreported.polled hw) hheard hlisten

theorem accept_never_blocks_polled :
    let s := serverMachine.runTrace (initial .empty)
      (openRun ++ [.env (.clientArrives 1)] ++ answer ++ answer)
    0 < s.asyncSrt.native.backlog 1 := by
  intro s
  have h : serverMachine.Execution (initial .empty) s :=
    Machine.execution_of_trace _ _ _ (by decide)
  have hq : s.asyncSrt.async.toWorker = [⟨.accept, [.number 1]⟩] := by decide
  exact accept_never_blocks table_lawful table_backlogged h hq (by decide) (by decide)

end SocketAsync
