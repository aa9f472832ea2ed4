import NodeSrt.ServerAccepting
import NodeSrt.ServerBacklog
import NodeSrt.SocketAsyncChanges
import NodeSrt.SocketAsyncDraining

/-! # Sockets that are reported are in the map

`_handleEvent` throws for a socket that is not in the map. A client is subscribed before it
is in the map, but a poll that reports it was executed after the subscription, so that its
reply comes later too; and with the microtasks run in between, the entry is there first.
Entries stay: a connection is closed from the start, and its `close` removes none. -/
namespace SocketAsync

open AsyncValues
open TransitionSystem
open AsyncApi
open NativeSrt
open OrderedPort (getElem?_concat_cases)

variable {σ ω : Type*} {s t u : State σ ω} {p : Config} {x : Prompt} {e : Event ω}
  {sync : SyncSRT σ ω} {n : σ}

/-! ## What the epoll reports -/

/-- The socket that an executed call has added to the epoll. -/
def addedTo (epid : JSValue) : AsyncSRTWorkerPost × Outcome → Option ℤ
  | (⟨.epollAddUsock, [e, .number fd, _]⟩, .ok v) =>
    if e = epid ∧ v ≠ .number SRT_ERROR then some fd else none
  | _ => none

def added (epid : JSValue) (calls : List (AsyncSRTWorkerPost × Outcome)) : List ℤ :=
  calls.filterMap (addedTo epid)

def reported : Outcome → List SRTEpollResult
  | .ok (.epollResults events) => events
  | _ => []

/-- A poll reports only sockets that were added to its epoll before. -/
def ReportsAdded (sync : SyncSRT σ ω) (s : State σ ω) : Event ω → Prop
  | .exec => ∀ data ∈ s.asyncSrt.async.toWorker.head?, data.method = .epollUWait →
      ∀ epid ∈ data.args.head?, ∀ event ∈ reported (sync.call s.asyncSrt.native data).2,
        event.socket ∈ added epid s.asyncSrt.async.executed
  | _ => True

instance (sync : SyncSRT σ ω) (s : State σ ω) : (e : Event ω) → Decidable (ReportsAdded sync s e)
  | .exec => inferInstanceAs (Decidable (∀ data ∈ s.asyncSrt.async.toWorker.head?,
      data.method = .epollUWait → ∀ epid ∈ data.args.head?,
        ∀ event ∈ reported (sync.call s.asyncSrt.native data).2,
          event.socket ∈ added epid s.asyncSrt.async.executed))
  | .create | .opening | .dispose | .closeConnection _ | .listenerReturn _ | .resume
  | .resumeDispose | .deliver | .pollTimer | .pollDispose | .exited _ | .env _ => isTrue trivial

def ReportedAdded (s : State σ ω) : Prop :=
  ∀ k post events, s.asyncSrt.async.executed[k]? = some (post, .ok (.epollResults events)) →
    post.method = .epollUWait → ∀ epid ∈ post.args.head?, ∀ event ∈ events,
      event.socket ∈ added epid (s.asyncSrt.async.executed.take k)

theorem mem_added {epid : JSValue} {fd : ℤ} {calls : List (AsyncSRTWorkerPost × Outcome)} {k : ℕ}
    (h : fd ∈ added epid (calls.take k)) : ∃ j < k, ∃ flags v,
      calls[j]? = some (⟨.epollAddUsock, [epid, .number fd, flags]⟩, .ok v) ∧
        v ≠ .number SRT_ERROR := by
  obtain ⟨y, hy, he⟩ := List.mem_filterMap.mp h
  obtain ⟨j, hj⟩ := List.mem_iff_getElem?.mp hy
  obtain ⟨hlt, hget⟩ : j < k ∧ calls[j]? = some y := by
    rw [List.getElem?_take] at hj
    split at hj
    · exact ⟨‹_›, hj⟩
    · cases hj
  unfold addedTo at he
  split at he
  · split at he
    · rename_i e fd' flags v hc
      obtain ⟨rfl, hv⟩ := hc
      cases he
      exact ⟨j, hlt, flags, v, hget, hv⟩
    · cases he
  · cases he

namespace ReportedAdded

theorem of_eq (h : ReportedAdded s)
    (he : t.asyncSrt.async.executed = s.asyncSrt.async.executed) : ReportedAdded t := by
  unfold ReportedAdded
  rw [he]
  exact h

theorem step (h : ReportedAdded s) (hw : Wired s) (he : Enabled s e) (hr : ReportsAdded sync s e) :
    ReportedAdded (next sync p s e) := by
  have hc : Change sync p s e (next sync p s e) := hw.changes he
  generalize next sync p s e = t at *
  cases hc.acts hw with
  | none heq => exact h.of_eq (Prod.mk.inj heq).2
  | env heq =>
    simp only [Prod.mk.injEq] at heq
    exact h.of_eq heq.2.1
  | @exec data rest hq heq =>
    simp only [Prod.mk.injEq] at heq
    intro k post events hk hm epid hepid event hevent
    rw [heq.2.1] at hk ⊢
    rcases getElem?_concat_cases hk with hk | ⟨rfl, hpost⟩
    · have hlt := (List.getElem?_eq_some_iff.mp hk).1
      rw [List.take_append_of_le_length hlt.le]
      exact h k post events hk hm epid hepid event hevent
    · obtain ⟨rfl, hout⟩ := Prod.mk.inj hpost
      rw [List.take_left']
      · refine hr post (by simp [hq]) hm epid hepid event ?_
        rw [← hout]
        exact hevent
      · rfl

end ReportedAdded

/-! ## The map grows -/

theorem lookup_ne_none {fd : JSValue} :
    s.lookup fd ≠ none ↔ ∃ c, (fd, c) ∈ s.connectionMap := by
  rw [State.lookup, ne_eq, List.lookup_eq_none_iff]
  push Not
  constructor
  · rintro ⟨⟨k, c⟩, hmem, he⟩
    obtain rfl : fd = k := by simpa using he
    exact ⟨c, hmem⟩
  · rintro ⟨c, hmem⟩
    exact ⟨(fd, c), hmem, by simp⟩

theorem lookup_setConnection {fd k : JSValue} {c : ℕ} (h : k = fd ∨ s.lookup k ≠ none) :
    (s.setConnection fd c).lookup k ≠ none := by
  rw [lookup_ne_none] at h ⊢
  simp only [State.setConnection]
  split
  · rename_i hnone
    rcases h with rfl | ⟨d, hd⟩
    · exact ⟨c, List.mem_append_right _ List.mem_cons_self⟩
    · exact ⟨d, List.mem_append_left _ hd⟩
  · rename_i d hsome
    obtain ⟨d, hd⟩ : ∃ d, (k, d) ∈ s.connectionMap := by
      rcases h with rfl | h
      · exact lookup_ne_none.mp (by simp [hsome])
      · exact h
    by_cases hk : k = fd
    · exact ⟨c, List.mem_map.mpr ⟨(k, d), hd, by simp [hk]⟩⟩
    · exact ⟨d, List.mem_map.mpr ⟨(k, d), hd, by simp [hk]⟩⟩

theorem lookup_next (hw : Wired s) (he : Enabled s e) {fd : JSValue} (h : s.lookup fd ≠ none) :
    (next sync p s e).lookup fd ≠ none := by
  by_cases hcon : e = .resume ∧ s.connecting.isSome = true
  · obtain ⟨rfl, hcon⟩ := hcon
    obtain ⟨k, v, rest, hq⟩ := Announces.exists_of_connecting hcon
    rw [Announces.next_connects hq]
    exact lookup_setConnection (s := { s with microtasks := rest }) (Or.inr h)
  · have hkept : (_, (next sync p s e).connectionMap) = (_, s.connectionMap) :=
      Announces.kept hw he hcon
    rwa [State.lookup, (Prod.mk.inj hkept).2]

/-! ## The invariant -/

/-- The listening socket, or one that is in the map. -/
def Known (s : State σ ω) (fd : ℤ) : Prop :=
  (∃ a, Heard s a) ∧ (s.socket = .number fd ∨ s.lookup (.number fd) ≠ none)

structure Mapped (s : State σ ω) : Prop where
  subscribed : ∀ k q fd v, s.asyncSrt.async.posted[k]? = some q →
    q.1.waiter = .handling (.epollAddUsock (.number fd)) →
    s.asyncSrt.async.executed[k]? = some (q.2, .ok v) → k < s.asyncSrt.async.answered →
    (q.1.waiter, .ok v) ∈ s.microtasks ∨ s.lookup (.number fd) ≠ none
  polled : ∀ events, (.epollUWait, .ok (.epollResults events)) ∈ s.microtasks →
    ∀ event ∈ events, Known s event.socket
  handled : ∀ event, .handling (.getSockState event) ∈ s.awaits → Known s event.socket
  thrown : ∀ a e, (a, .error e) ∈ s.microtasks → ∃ e', e = .async e'
  silent : ∀ fd, .socket (.notInMap fd) ∉ s.unhandled

theorem initial_mapped (n : σ) : Mapped (initial n : State σ ω) := by
  constructor <;> simp [initial, Backed.initial, AsyncApi.initial, State.awaits]

theorem Known.next {fd : ℤ} (h : Known s fd) (hw : Wired s) (ho : Ordered s) (hd : Drained s)
    (he : Enabled s e) {a : Await} (ha : a ∈ s.awaits) (hne : a ≠ .disposeAsync) :
    Known (next sync p s e) fd := by
  have hc : Change sync p s e (SocketAsync.next sync p s e) := hw.changes he
  obtain ⟨⟨b, hheard⟩, hknown⟩ := h
  refine ⟨⟨b, (hc.recalls hw).heard hheard⟩, ?_⟩
  refine hknown.imp (fun hs => ?_) fun hl => lookup_next hw he hl
  rcases hc.socket hw with hsock | hcreate | hdisposed
  · exact hsock.trans hs
  · obtain ⟨v, hx, -⟩ := hheard
    obtain ⟨q, hq, hpost⟩ := hw.posted_of_executed hx
    have hm := hw.matched q hq
    rw [hpost] at hm
    exact absurd hcreate (ho.final q hq (Await.eq_listen hm)).1
  · exact absurd ((hd.gone (ho.exited hdisposed)).1 a ha) hne

/-- A call that is answered was posted and executed. -/
theorem Wired.answered_lt (hw : Wired s) {k : ℕ} (hk : k < s.asyncSrt.async.answered) :
    k < s.asyncSrt.async.posted.length ∧ k < s.asyncSrt.async.executed.length := by
  have hc := hw.invariant.correlated
  have hreceived := hc.transit.received_le
  have hserved := hc.transit.served_le
  rw [List.length_map] at hserved
  rw [hc.executed_length]
  omega

namespace Mapped

theorem known_of_reported (h : Mapped s) (hr : ReportedAdded s) (hw : Wired s) (ho : Ordered s)
    (hg : Grounded p s) (hi : s.microtasks = []) (hwork : s.asyncSrt.async.worker = true)
    {k : ℕ} (hk : k ≤ s.asyncSrt.async.answered) {q : OnResult Await × AsyncSRTWorkerPost}
    {events : List SRTEpollResult} (hq : s.asyncSrt.async.posted[k]? = some q)
    (hx : s.asyncSrt.async.executed[k]? = some (q.2, .ok (.epollResults events)))
    (hwait : q.1.waiter = .epollUWait) {event : SRTEpollResult} (he : event ∈ events) :
    Known s event.socket := by
  have hmem := List.mem_of_getElem? hq
  have hm : q.2.method = .epollUWait := hw.method_of_waiter hmem hwait rfl
  obtain ⟨a, ha⟩ := hg.heard_of_polling hw hmem hm
  refine ⟨⟨a, ha⟩, ?_⟩
  have hj := hg.justified q hmem
  rw [hwait] at hj
  obtain ⟨epid, -, -, -, hpost⟩ := hj
  obtain ⟨j, hlt, flags, v, hxj, hv⟩ :=
    mem_added (hr k q.2 events hx hm epid.toValue (by rw [hpost]; rfl) event he)
  obtain ⟨q', hq', hpost'⟩ : ∃ q', s.asyncSrt.async.posted[j]? = some q' ∧
      q'.2 = ⟨.epollAddUsock, [epid.toValue, .number event.socket, flags]⟩ := by
    obtain ⟨q', hq', he'⟩ := hw.posted_at hxj
    exact ⟨q', hq', he'⟩
  have hmem' := List.mem_of_getElem? hq'
  have hmatch := hw.matched q' hmem'
  rw [hpost'] at hmatch
  obtain ⟨epid', fd, hsub, hadds⟩ := (hg.justified q' hmem').adds hmatch
  have hfd : fd = .number event.socket := by
    have hargs := congrArg AsyncSRTWorkerPost.args (hsub.symm.trans hpost')
    simp only [subscribePost, ApiCall.post, List.cons.injEq] at hargs
    exact toValue_injective hargs.2.1
  rw [hfd] at hadds
  rcases hadds with ⟨-, hc⟩ | ⟨hwait', -⟩
  · exact Or.inl (ho.heard_eq hw hwork hc.heard).symm
  · -- the reply to the call that added the socket was taken before, and its microtask has run
    rw [← hpost'] at hxj
    have hsubscribed := h.subscribed j q' event.socket v hq' hwait' hxj (hlt.trans_le hk)
    rw [hi] at hsubscribed
    exact Or.inr (hsubscribed.resolve_left (by simp))

theorem handled_next (h : Mapped s) (hw : Wired s) (ho : Ordered s) (hd : Drained s)
    (he : Enabled s e) {event : SRTEpollResult}
    (ha : .handling (.getSockState event) ∈ (next sync p s e).awaits) :
    Known (next sync p s e) event.socket := by
  have hc : Change sync p s e (next sync p s e) := hw.changes he
  rcases hc.mem_awaits hw ha with ha | ha | ⟨x, u, hx, hcloses | ⟨post, hcall⟩⟩
  · exact (h.handled event ha).next hw ho hd he ha (by simp)
  · cases ha
  · obtain ⟨event', v, fd, -, hne⟩ := hcloses
    cases hne
  · cases hcall with
    | @status events _ hevent =>
      cases hx with
      | await hs hq =>
        have hmem : (.epollUWait, .ok (.epollResults events)) ∈ s.microtasks :=
          hq ▸ List.mem_cons_self
        have hawait : .epollUWait ∈ s.awaits := mem_awaits.mpr (Or.inl ⟨_, hmem⟩)
        exact (h.polled events hmem event hevent).next hw ho hd he hawait (by simp)

theorem silent_next (h : Mapped s) (hw : Wired s) (he : Enabled s e) (fd : ℤ) :
    .socket (.notInMap fd) ∉ (next sync p s e).unhandled := by
  intro hmem
  have hc : Change sync p s e (next sync p s e) := hw.changes he
  rcases hc.unhandled hw _ hmem with hmem | ⟨x, u, hx, hraise⟩
  · exact h.silent fd hmem
  have hsame := hx.same
  simp only [Prod.mk.injEq] at hsame
  cases hraise with
  | awaited a =>
    cases hx with
    | await hs hq =>
      obtain ⟨err, herr⟩ := h.thrown a _ (hq ▸ List.mem_cons_self)
      cases herr
  | @notInMap event v hs hl =>
    cases hx with
    | await hstack hq =>
      have hawait : .handling (.getSockState event) ∈ s.awaits :=
        mem_awaits.mpr (Or.inl ⟨_, hq ▸ List.mem_cons_self⟩)
      exact (h.handled event hawait).2.elim hs fun hmap => hmap hl

/-- A reply comes in: the microtasks that were to come before it have run. -/
theorem step_delivers (h : Mapped s) (hr : ReportedAdded s) (hw : Wired s) (ho : Ordered s)
    (hg : Grounded p s) (hd : Drained s) (he : Enabled s (.deliver : Event ω)) :
    Mapped (next sync p s .deliver) := by
  obtain ⟨q, ks, o, hq, hx, heq, hqueue, -, -, -, hanswered⟩ := hw.deliver_at he.2
  obtain ⟨-, -, -, -, -, hf⟩ := hw.delivers he
  simp only [Prod.mk.injEq] at hf
  obtain ⟨-, -, -, -, -, -, -, hexec, hposted⟩ := hf
  have hi := he.1.2.1
  have hwork : s.asyncSrt.async.worker = true := by
    by_contra hn
    exact he.2 (hw.dropped (by simpa using hn)).2.2
  have hmicro : s.deliver.microtasks = [(q.1.waiter, .ok (resultOf o))] := by
    simp [heq, State.wake, State.setAsync, hi]
  have hlook : ∀ fd, s.deliver.lookup fd = s.lookup fd := fun fd => by rw [heq]; rfl
  refine ⟨fun k q' fd v hq' hwait hx' hk => ?_, fun events hmem event hevent => ?_,
    fun event ha => h.handled_next hw ho hd he ha, fun a e' hmem => ?_, h.silent_next hw he⟩
  · change s.deliver.asyncSrt.async.posted[k]? = _ at hq'
    change s.deliver.asyncSrt.async.executed[k]? = _ at hx'
    change (_ ∈ s.deliver.microtasks) ∨ s.deliver.lookup _ ≠ none
    rw [hposted] at hq'
    rw [hexec] at hx'
    rw [hmicro, hlook]
    have hk : k < s.asyncSrt.async.answered + 1 := by
      rw [← hanswered]
      rwa [next, heq] at hk
    rcases Nat.lt_succ_iff_lt_or_eq.mp hk with hk | rfl
    · have hsubscribed := h.subscribed k q' fd v hq' hwait hx' hk
      rw [hi] at hsubscribed
      exact Or.inr (hsubscribed.resolve_left (by simp))
    · obtain rfl := Option.some.inj (hq.symm.trans hq')
      have ho : o = .ok v := (Prod.mk.inj (Option.some.inj (hx.symm.trans hx'))).2
      left
      rw [ho]
      exact List.mem_cons_self
  · change _ ∈ s.deliver.microtasks at hmem
    rw [hmicro] at hmem
    obtain ⟨hwait, hres⟩ := Prod.mk.inj (List.mem_singleton.mp hmem)
    have hok : o = .ok (.epollResults events) := by
      cases o with
      | ok v => exact congrArg _ (Except.ok.inj hres).symm
      | error err => cases hres
    rw [hok] at hx
    have hknown := h.known_of_reported hr hw ho hg hi hwork le_rfl hq hx hwait.symm hevent
    have hawait : .epollUWait ∈ s.awaits := by
      refine mem_awaits.mpr (Or.inr ?_)
      rw [State.queue, hqueue, List.map_cons, ← hwait]
      exact List.mem_cons_self
    exact hknown.next hw ho hd he hawait (by simp)
  · change _ ∈ s.deliver.microtasks at hmem
    rw [hmicro] at hmem
    cases (Prod.mk.inj (List.mem_singleton.mp hmem)).2

theorem step_stays (h : Mapped s) (hw : Wired s) (ho : Ordered s) (hd : Drained s)
    (he : Enabled s e) (hn : e ≠ .deliver) : Mapped (next sync p s e) := by
  have hc : Change sync p s e (next sync p s e) := hw.changes he
  obtain ⟨hanswered, hstays⟩ := hc.stays hw hn
  refine ⟨fun k q fd v hq hwait hx hk => ?_, fun events hmem event hevent => ?_,
    fun event ha => h.handled_next hw ho hd he ha, fun a e' hmem => ?_, h.silent_next hw he⟩
  · rw [hanswered] at hk
    obtain ⟨hposted, hexecuted⟩ := hw.answered_lt hk
    obtain ⟨qs, hqs, -⟩ := hc.posted hw
    rw [hqs, List.getElem?_append_left hposted] at hq
    obtain ⟨rs, hrs⟩ := hc.executed hw
    rw [← hrs, List.getElem?_append_left hexecuted] at hx
    rcases h.subscribed k q fd v hq hwait hx hk with hmem | hl
    · refine (hstays _ hmem).imp_right ?_
      rintro ⟨rfl, rest, hpop⟩
      rw [hwait] at hpop
      rw [Announces.next_connects hpop]
      exact lookup_setConnection (s := { s with microtasks := rest }) (Or.inl rfl)
    · exact Or.inr (lookup_next hw he hl)
  · rcases hc.wakes hw hn _ hmem with hmem | ⟨hnone, -⟩ | ⟨e', hr⟩ | ⟨hr, -⟩
    · have hawait : .epollUWait ∈ s.awaits := mem_awaits.mpr (Or.inl ⟨_, hmem⟩)
      exact (h.polled events hmem event hevent).next hw ho hd he hawait (by simp)
    · cases hnone
    · cases hr
    · cases hr
  · rcases hc.wakes hw hn _ hmem with hmem | ⟨-, v, hok⟩ | ⟨err, hr⟩ | ⟨hr, -⟩
    · exact h.thrown a e' hmem
    · cases hok
    · exact ⟨err, Except.error.inj hr⟩
    · cases hr

end Mapped

/-! ## The result -/

/-- While the epoll reports only sockets that were added to it, no handler throws for want of
a connection. -/
theorem handler_never_throws
    (h : ((machine sync p).restrict (ReportsAdded sync)).Execution (initial n) s) (fd : ℤ) :
    .socket (.notInMap fd) ∉ s.unhandled := by
  have main : (machine sync p).Execution (initial n) s ∧ ReportedAdded s ∧ Mapped s := by
    refine h.invariant
      (I := fun s => (machine sync p).Execution (initial n) s ∧ ReportedAdded s ∧ Mapped s)
      ⟨.refl _, (by simp [ReportedAdded, initial, Backed.initial, AsyncApi.initial]),
        initial_mapped n⟩ fun u e hu he => ?_
    obtain ⟨hrun, hr, hm⟩ := hu
    obtain ⟨hw, ho, hg⟩ := execution_grounded hrun
    have hd := execution_drained hrun
    refine ⟨hrun.tail he.1, hr.step hw he.1 he.2, ?_⟩
    by_cases hn : e = .deliver
    · subst hn
      have hnext : Mapped (next sync p u .deliver) := hm.step_delivers hr hw ho hg hd he.1
      exact hnext
    · exact hm.step_stays hw ho hd he.1 hn
  exact main.2.2.silent fd

/-- The user closes the connection before its broken socket is reported. -/
theorem handler_never_throws_disconnected :
    let s := serverMachine.runTrace (initial .empty)
      (acceptRun ++ [.env (.connectionBreaks 2), .closeConnection 0] ++ pollBroken)
    .disconnection 2 ∈ s.log ∧ .socket (.notInMap 2) ∉ s.unhandled := by
  intro s
  have h : (serverMachine.restrict (ReportsAdded (nodeSRT tableLibsrt))).Execution
      (initial .empty) _ :=
    Machine.execution_of_trace _ _
      (acceptRun ++ [.env (.connectionBreaks 2), .closeConnection 0] ++ pollBroken) (by decide)
  rw [Machine.runTrace_restrict] at h
  exact ⟨by decide, handler_never_throws h 2⟩

end SocketAsync
