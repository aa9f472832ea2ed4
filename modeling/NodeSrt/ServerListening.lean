import NodeSrt.ServerOpening

/-! # An open server listens

The socket is final when it starts to listen, since no `create` is still on its way then.
It listens, and is subscribed, until a call of the worker closes it; `accept` is such a
call, also where it succeeds. -/
namespace SocketAsync

open AsyncValues
open TransitionSystem
open AsyncApi
open NativeSrt

variable {σ ω : Type*} {lib : Libsrt σ ω} {p : Config} {s t : State σ ω}

/-- An open server that has not started to dispose listens, and polls for its clients. -/
def KeepsListening (lib : Libsrt σ ω) (s : State σ ω) : Prop :=
  s.isOpen → s.startedToDispose = false → ∃ u epid, s.socket = .number u ∧
    s.epid = .number epid ∧ lib.Listening s.asyncSrt.native u ∧
    lib.subscribed s.asyncSrt.native epid u

/-! ## Conditions on a run -/

def State.endsListening (lib : Libsrt σ ω) (s : State σ ω) (data : AsyncSRTWorkerPost) : Bool :=
  match s.socket with
  | .number u => lib.Listening s.asyncSrt.native u && lib.closes s.asyncSrt.native data u
  | _ => false

def State.subscribing (s : State σ ω) : Option ReturnValue :=
  match s.microtasks with
  | (.opening .epollAddUsock, .ok v) :: _ => some v
  | _ => none

/-- Before disposal, `open` is not called again once it is under way or has subscribed the
socket, the subscription does not fail, and no call closes the socket while it listens. -/
def ListenerSpared (lib : Libsrt σ ω) (s : State σ ω) : Event ω → Prop
  | .opening => s.startedToDispose = false → s.socket ≠ .null → s.openings = 0
  | .resume => s.startedToDispose = false → .number SRT_ERROR ∉ s.subscribing.toList
  | .exec => s.startedToDispose = false →
      ∀ data ∈ s.asyncSrt.async.toWorker.head?.toList, s.endsListening lib data = false
  | _ => True

instance (lib : Libsrt σ ω) (s : State σ ω) : (e : Event ω) → Decidable (ListenerSpared lib s e)
  | .opening => inferInstanceAs (Decidable (s.startedToDispose = false → s.socket ≠ .null →
      s.openings = 0))
  | .resume => inferInstanceAs (Decidable (s.startedToDispose = false →
      ReturnValue.number SRT_ERROR ∉ s.subscribing.toList))
  | .exec => inferInstanceAs (Decidable (s.startedToDispose = false →
      ∀ data ∈ s.asyncSrt.async.toWorker.head?.toList, s.endsListening lib data = false))
  | .create | .dispose | .closeConnection _ | .listenerReturn _ | .resumeDispose
  | .deliver | .pollTimer | .pollDispose | .exited _ | .env _ => isTrue trivial

/-! ## What is known before disposal -/

def listenPost (x : Slot) : AsyncSRTWorkerPost :=
  (ApiCall.listen x.toValue (.number State.SOCKET_LISTEN_BACKLOG_SIZE)).post

def epollCreatePost : AsyncSRTWorkerPost := ApiCall.epollCreate.post

def subscribePost (epid x : Slot) : AsyncSRTWorkerPost :=
  (ApiCall.epollAddUsock epid.toValue x.toValue (.number (SRT_EPOLL_IN + SRT_EPOLL_ERR))).post

def State.Succeeded (s : State σ ω) (post : AsyncSRTWorkerPost) : Prop :=
  ∃ v, (post, .ok v) ∈ s.asyncSrt.async.executed

def Await.afterListen : Await → Bool
  | .opening .epollCreate | .opening .epollAddUsock | .epollUWait | .handling _ => true
  | _ => false

def State.AfterListen (s : State σ ω) : Prop :=
  (∃ a ∈ s.awaits, a.afterListen = true) ∨ .opened ∈ s.stack ∨ s.pollEventsTimer = true ∨ s.isOpen

structure Listens (lib : Libsrt σ ω) (s : State σ ω) : Prop where
  undisposed : .disposeClose ∉ s.awaits ∧ .disposeAsync ∉ s.awaits ∧ .opening .connect ∉ s.awaits
  socket : s.socket ≠ .undefined
  fresh : s.socket = .null → ∀ a ∈ s.awaits, a = .create
  order : s.queue.Pairwise fun a b => b = .create → a = .create
  bound : ∀ v, (.opening .bind, .ok v) ∈ s.microtasks → .create ∉ s.awaits
  listens : ∀ q ∈ s.asyncSrt.async.posted, q.1.waiter = .opening .listen →
    q.2 = listenPost s.socket ∧ .create ∉ s.awaits ∧ s.socket ≠ .null
  polls : ∀ q ∈ s.asyncSrt.async.posted, q.1.waiter = .opening .epollCreate →
    q.2 = epollCreatePost
  subscribes : ∀ q ∈ s.asyncSrt.async.posted, q.1.waiter = .opening .epollAddUsock →
    q.2 = subscribePost s.epid s.socket
  adds : ∀ q ∈ s.asyncSrt.async.posted, q.2.method = .epollAddUsock →
    s.Succeeded (listenPost s.socket)
  numbers : ∀ x ∈ s.asyncSrt.async.executed, x.1 = createPost ∨ x.1 = epollCreatePost →
    ∃ k, resultOf x.2 = .number k
  single : s.openings ≤ 1
  after : s.AfterListen → s.Succeeded (listenPost s.socket)
  listening : ∀ u, s.socket = .number u → s.Succeeded (listenPost s.socket) →
    lib.Listening s.asyncSrt.native u
  subscribed : ∀ u epid, s.socket = .number u →
    s.Succeeded (subscribePost (.number epid) s.socket) → lib.subscribed s.asyncSrt.native epid u
  epid : .opened ∈ s.stack ∨ .opening .epollAddUsock ∈ s.awaits ∨ s.isOpen →
    ∃ epid, s.epid = .number epid
  done : s.isOpen → ∃ q ∈ s.asyncSrt.async.posted, q.1.waiter = .opening .epollAddUsock ∧
    s.Succeeded q.2

theorem initial_listens (lib : Libsrt σ ω) (n : σ) : Listens lib (initial n : State σ ω) := by
  constructor <;> simp [initial, Backed.initial, AsyncApi.initial, State.awaits, State.queue,
    State.openings, State.AfterListen, State.isOpen]

theorem Wired.posted_at (h : Wired s) {k : ℕ} {x : AsyncSRTWorkerPost × Outcome}
    (hx : s.asyncSrt.async.executed[k]? = some x) :
    ∃ q, s.asyncSrt.async.posted[k]? = some q ∧ q.2 = x.1 := by
  have hfst : (s.asyncSrt.async.executed.map Prod.fst)[k]? = some x.1 := by simp [hx]
  rw [h.invariant.correlated.calls, List.getElem?_take] at hfst
  split at hfst
  · simpa using hfst
  · cases hfst

theorem Wired.posted_of_executed (h : Wired s) {x : AsyncSRTWorkerPost × Outcome}
    (hx : x ∈ s.asyncSrt.async.executed) : ∃ q ∈ s.asyncSrt.async.posted, q.2 = x.1 := by
  obtain ⟨k, hk⟩ := List.mem_iff_getElem?.mp hx
  obtain ⟨q, hq, he⟩ := h.posted_at hk
  exact ⟨q, List.mem_of_getElem? hq, he⟩

theorem Await.eq_listen {a : Await} (h : a.method = some .listen) : a = .opening .listen := by
  cases a with
  | create | disposeClose | disposeAsync | closing c caller | epollUWait => cases h
  | opening step => cases step <;> first | rfl | cases h
  | handling step => cases step <;> cases h

theorem Await.afterListen_of_epollAddUsock {a : Await} (h : a.method = some .epollAddUsock) :
    a.afterListen = true := by
  cases a with
  | create | disposeClose | disposeAsync | closing c caller | epollUWait => cases h
  | opening step => cases step <;> first | rfl | cases h
  | handling step => rfl

theorem State.succeeded_congr (h : t.asyncSrt.async.executed = s.asyncSrt.async.executed)
    (post : AsyncSRTWorkerPost) : t.Succeeded post ↔ s.Succeeded post := by
  rw [State.Succeeded, State.Succeeded, h]

theorem pairwise_create_append {l m : List Await}
    (h : l.Pairwise fun a b => b = .create → a = .create) (hm : .create ∉ m) :
    (l ++ m).Pairwise fun a b => b = .create → a = .create := by
  rw [List.pairwise_append]
  refine ⟨h, ?_, fun a _ b hb he => absurd (he ▸ hb) hm⟩
  exact List.pairwise_of_forall_mem_list fun a _ b hb he => absurd (he ▸ hb) hm

namespace Listens

/-- A socket that has been told to listen is there to stay. -/
theorem final (h : Listens lib s) (hw : Wired s) (hs : s.Succeeded (listenPost s.socket)) :
    .create ∉ s.awaits ∧ s.socket ≠ .null := by
  obtain ⟨v, hx⟩ := hs
  obtain ⟨q, hq, he⟩ := hw.posted_of_executed hx
  have hm := hw.matched q hq
  rw [he] at hm
  exact (h.listens q hq (Await.eq_listen hm)).2

theorem aside (h : Listens lib s) (hw : Wired s) (k : Aside s t)
    (hl : s.Succeeded (listenPost s.socket) ∨
      (t.AfterListen → s.AfterListen) ∧ t.asyncSrt.async.posted = s.asyncSrt.async.posted ∧
        ∀ a ∈ t.awaits, a ∈ s.awaits) : Listens lib t := by
  obtain ⟨hfields, hawaits, hopens, ⟨l, hl', hls⟩, hmicro, ⟨ps, hps, hserve⟩, hstack, hret⟩ := k
  simp only [Prod.mk.injEq] at hfields
  obtain ⟨hsock, hepid, _, hn, hx⟩ := hfields
  have hnot : ∀ a : Await, a.serving = false → a ∉ s.awaits → a ∉ t.awaits := by
    intro a ha hno hmem
    rcases hawaits a hmem with hmem | hs
    · exact hno hmem
    · simp [ha] at hs
  have hold : ∀ q ∈ t.asyncSrt.async.posted, q.1.waiter.serving = false →
      q ∈ s.asyncSrt.async.posted := by
    intro q hq hs
    rw [hps] at hq
    refine (List.mem_append.mp hq).elim id fun hq => ?_
    simp [hserve q hq] at hs
  have hsucc := State.succeeded_congr hx
  have hcount : (ps.countP fun q => q.1.waiter = .opening .epollAddUsock) = 0 := by
    rw [List.countP_eq_zero]
    intro q hq he
    have hs := hserve q hq
    rw [of_decide_eq_true he] at hs
    cases hs
  exact {
    undisposed := ⟨hnot _ rfl h.undisposed.1, hnot _ rfl h.undisposed.2.1,
      hnot _ rfl h.undisposed.2.2⟩
    socket := hsock ▸ h.socket
    fresh := by
      intro hnull a ha
      rw [hsock] at hnull
      rcases hl with hl | ⟨_, _, hsub⟩
      · exact absurd hnull (h.final hw hl).2
      · exact h.fresh hnull a (hsub a ha)
    order := by
      rw [hl']
      refine pairwise_create_append h.order fun hmem => ?_
      cases hls _ hmem
    bound := by
      intro v hv
      rcases hmicro _ hv with hv | hs
      · exact hnot _ rfl (h.bound v hv)
      · cases hs
    listens := by
      intro q hq hwait
      have hq := h.listens q (hold q hq (by rw [hwait]; rfl)) hwait
      exact ⟨hsock ▸ hq.1, hnot _ rfl hq.2.1, hsock ▸ hq.2.2⟩
    polls := fun q hq hwait => h.polls q (hold q hq (by rw [hwait]; rfl)) hwait
    subscribes := by
      rw [hepid, hsock]
      exact fun q hq hwait => h.subscribes q (hold q hq (by rw [hwait]; rfl)) hwait
    adds := by
      rw [hsucc, hsock]
      intro q hq hm
      rcases hl with hl | ⟨_, he, _⟩
      · exact hl
      · exact h.adds q (he ▸ hq) hm
    numbers := hx ▸ h.numbers
    single := by
      refine le_trans ?_ h.single
      rw [State.openings, State.openings, hps, List.countP_append, hcount, Nat.add_zero]
      omega
    after := by
      rw [hsucc, hsock]
      exact fun ha => hl.elim id fun hl => h.after (hl.1 ha)
    listening := by
      rw [hsucc, hsock, hn]
      exact h.listening
    subscribed := by
      rw [hsock, hn]
      exact fun u epid hu hs => h.subscribed u epid hu ((hsucc _).mp hs)
    epid := by
      rw [hepid]
      refine fun ho => h.epid (ho.imp (fun ho => ?_) (Or.imp (fun ho => ?_) hret))
      · exact List.count_pos_iff.mp ((List.count_pos_iff.mpr ho).trans_le hstack)
      · by_contra hno
        exact hnot _ rfl hno ho
    done := by
      intro ho
      obtain ⟨q, hq, hwait, hs⟩ := h.done (hret ho)
      exact ⟨q, hps ▸ List.mem_append_left _ hq, hwait, (hsucc _).mpr hs⟩ }

/-- What the next call of an `open` adds to the openings under way. -/
theorem countP_openings_le {qs : List (OnResult Await × AsyncSRTWorkerPost)} {step : OpenStep}
    (hlen : qs.length ≤ 1)
    (hwaiter : ∀ q ∈ qs, ∀ step', q.1.waiter = .opening step' → step = step') :
    qs.countP (fun q => q.1.waiter = .opening .epollAddUsock) +
      [Await.opening step].countP Await.opens ≤ 1 := by
  by_cases he : step = .epollAddUsock
  · subst he
    exact List.countP_le_length.trans hlen
  · have hzero : qs.countP (fun q => q.1.waiter = .opening .epollAddUsock) = 0 := by
      rw [List.countP_eq_zero]
      exact fun q hq hw => he (hwaiter q hq _ (of_decide_eq_true hw))
    rw [hzero, Nat.zero_add]
    exact List.countP_le_length

theorem posts (h : Listens lib s) (hw : Wired s) (hd : s.startedToDispose = false)
    (hz : s.openings = 0) {c : ApiCall} (hc : Simple c) {step : OpenStep}
    (hm : (Await.opening step).method = some c.post.method) (hserver : step ≠ .connect)
    (hsock : s.socket ≠ .null)
    (hlisten : step = .listen → c.post = listenPost s.socket ∧ .create ∉ s.awaits)
    (hpoll : step = .epollCreate → c.post = epollCreatePost)
    (hsub : step = .epollAddUsock →
      c.post = subscribePost s.epid s.socket ∧ ∃ epid, s.epid = .number epid)
    (hafter : (Await.opening step).afterListen = true → s.Succeeded (listenPost s.socket)) :
    Listens lib (s.post c (.opening step)) := by
  obtain ⟨hfields, hperm, ⟨l, hl, hla⟩, hmicro, ⟨qs, hqs, hlen, hall⟩⟩ :=
    hw.post_adds hd hc (.opening step)
  generalize s.post c (.opening step) = t at *
  simp only [Prod.mk.injEq] at hfields
  obtain ⟨hs, hepid, _, hstack, hret, htimer, hn, hx⟩ := hfields
  have hsucc := State.succeeded_congr hx
  have hopen : t.isOpen ↔ s.isOpen := by rw [State.isOpen, State.isOpen, hret]
  have hmem : ∀ a, a ∈ t.awaits ↔ a ∈ s.awaits ∨ a = .opening step := by
    intro a
    rw [hperm.mem_iff, List.mem_append, List.mem_singleton]
  have hq : ∀ q, q ∈ t.asyncSrt.async.posted ↔ q ∈ s.asyncSrt.async.posted ∨ q ∈ qs := by
    intro q
    rw [hqs, List.mem_append]
  have hwaiter : ∀ q ∈ qs, ∀ step', q.1.waiter = .opening step' → step = step' := by
    intro q hq step' he
    rw [(hall q hq).1] at he
    exact (Await.opening.inj he)
  have hcreate : .create ∉ s.awaits → .create ∉ t.awaits := by
    intro hno hmem'
    exact ((hmem _).mp hmem').elim hno (by simp)
  exact {
    undisposed := by simpa [hmem, hserver.symm] using h.undisposed
    socket := hs ▸ h.socket
    fresh := fun hnull => absurd (hs ▸ hnull) hsock
    order := by
      rw [hl]
      exact pairwise_create_append h.order (by rcases hla with rfl | rfl <;> simp)
    bound := by
      intro v hv
      rcases hmicro _ hv with hv | ⟨e, he⟩
      · exact hcreate (h.bound v hv)
      · cases he
    listens := by
      intro q hqt hwait
      rw [hs]
      rcases (hq q).mp hqt with hqt | hqt
      · obtain ⟨he, hno, hne⟩ := h.listens q hqt hwait
        exact ⟨he, hcreate hno, hne⟩
      · obtain ⟨he, hno⟩ := hlisten (hwaiter q hqt _ hwait)
        exact ⟨(hall q hqt).2.trans he, hcreate hno, hsock⟩
    polls := by
      intro q hqt hwait
      rcases (hq q).mp hqt with hqt | hqt
      · exact h.polls q hqt hwait
      · exact (hall q hqt).2.trans (hpoll (hwaiter q hqt _ hwait))
    subscribes := by
      intro q hqt hwait
      rw [hepid, hs]
      rcases (hq q).mp hqt with hqt | hqt
      · exact h.subscribes q hqt hwait
      · exact (hall q hqt).2.trans (hsub (hwaiter q hqt _ hwait)).1
    adds := by
      intro q hqt hmeth
      rw [hsucc, hs]
      rcases (hq q).mp hqt with hqt | hqt
      · exact h.adds q hqt hmeth
      · rw [(hall q hqt).2] at hmeth
        exact hafter (Await.afterListen_of_epollAddUsock (hmeth ▸ hm))
    numbers := hx ▸ h.numbers
    single := by
      have hcount := countP_openings_le hlen hwaiter
      rw [State.openings] at hz ⊢
      rw [hperm.countP_eq, List.countP_append, hstack, hqs, List.countP_append]
      omega
    after := by
      rw [hsucc, hs]
      rintro (⟨a, ha, haf⟩ | ho | ht | ho)
      · rcases (hmem a).mp ha with ha | rfl
        · exact h.after (Or.inl ⟨a, ha, haf⟩)
        · exact hafter haf
      · exact h.after (Or.inr (Or.inl (hstack ▸ ho)))
      · exact h.after (Or.inr (Or.inr (Or.inl (htimer ▸ ht))))
      · exact h.after (Or.inr (Or.inr (Or.inr (hopen.mp ho))))
    listening := by
      rw [hsucc, hs, hn]
      exact h.listening
    subscribed := by
      rw [hs, hn]
      exact fun u epid hu hsu => h.subscribed u epid hu ((hsucc _).mp hsu)
    epid := by
      rw [hepid, hstack, hopen, hmem]
      rintro (ho | (ho | he) | ho)
      · exact h.epid (Or.inl ho)
      · exact h.epid (Or.inr (Or.inl ho))
      · exact (hsub (Await.opening.inj he).symm).2
      · exact h.epid (Or.inr (Or.inr ho))
    done := by
      intro ho
      obtain ⟨q, hqs', hwait, hsu⟩ := h.done (hopen.mp ho)
      exact ⟨q, (hq q).mpr (Or.inl hqs'), hwait, (hsucc _).mpr hsu⟩ }

/-- A call of `create`, which finds no socket and so nothing but creates under way. -/
theorem step_creates (h : Listens lib s) (hs : s.socket = .null) :
    Listens lib ({ s with createCalls := s.createCalls + 1 }.setAsync
      (s.asyncSrt.async.accept (.createSocket .undefined) false .create)) := by
  have hall := h.fresh hs
  have hawaits := awaits_accept { s with createCalls := s.createCalls + 1 }
    (.createSocket .undefined) .create
  have hposted : ({ s with createCalls := s.createCalls + 1 }.setAsync
      (s.asyncSrt.async.accept (.createSocket .undefined) false .create)).asyncSrt.async.posted =
      s.asyncSrt.async.posted ++
        [(⟨s.asyncSrt.async.nextCall, .create, false, false⟩, createPost)] :=
    rfl
  have hqueue : ({ s with createCalls := s.createCalls + 1 }.setAsync
      (s.asyncSrt.async.accept (.createSocket .undefined) false .create)).queue =
      s.queue ++ [.create] := by
    simp [State.queue, State.setAsync, AsyncSRT.accept, AsyncSRT.prepare]
  generalize ht : { s with createCalls := s.createCalls + 1 }.setAsync
    (s.asyncSrt.async.accept (.createSocket .undefined) false .create) = t at *
  have hold : ∀ a : Await, a ≠ .create → a ∈ t.awaits → a ∈ s.awaits := by
    intro a hne ha
    rw [hawaits] at ha
    exact (List.mem_append.mp ha).elim id fun ha => absurd (List.mem_singleton.mp ha) hne
  have hposts : ∀ q ∈ t.asyncSrt.async.posted, q.1.waiter ≠ .create →
      q ∈ s.asyncSrt.async.posted := by
    intro q hq hne
    rw [hposted] at hq
    refine (List.mem_append.mp hq).elim id fun hq => ?_
    rw [List.mem_singleton.mp hq] at hne
    exact absurd rfl hne
  have hcount : t.openings = s.openings := by
    rw [State.openings, State.openings, hawaits, hposted, List.countP_append, List.countP_append]
    subst ht
    rfl
  subst ht
  refine { h with
      undisposed := ?_
      fresh := ?_
      order := ?_
      bound := ?_
      listens := ?_
      polls := ?_
      subscribes := ?_
      adds := ?_
      single := hcount ▸ h.single
      after := ?_
      epid := ?_
      done := ?_ }
  · exact ⟨fun ha => h.undisposed.1 (hold _ (by simp) ha),
      fun ha => h.undisposed.2.1 (hold _ (by simp) ha),
      fun ha => h.undisposed.2.2 (hold _ (by simp) ha)⟩
  · intro _ a ha
    by_contra hne
    exact hne (hall a (hold a hne ha))
  · rw [hqueue, List.pairwise_append]
    exact ⟨h.order, List.pairwise_singleton _ _,
      fun a ha _ _ _ => hall a (List.mem_append_right _ ha)⟩
  · intro v hv
    cases hall _ (List.mem_append_left _ (List.mem_map_of_mem hv))
  · intro q hq hwait
    have hq := hposts q hq (by simp [hwait])
    exact absurd hs (h.listens q hq hwait).2.2
  · exact fun q hq hwait => h.polls q (hposts q hq (by simp [hwait])) hwait
  · exact fun q hq hwait => h.subscribes q (hposts q hq (by simp [hwait])) hwait
  · intro q hq hm
    rw [hposted] at hq
    rcases List.mem_append.mp hq with hq | hq
    · exact h.adds q hq hm
    · rw [List.mem_singleton.mp hq] at hm
      cases hm
  · rintro (⟨a, ha, haf⟩ | ho)
    · refine h.after (Or.inl ⟨a, hold a (fun he => ?_) ha, haf⟩)
      rw [he] at haf
      cases haf
    · exact h.after (Or.inr ho)
  · exact fun ho => h.epid (ho.imp_right (Or.imp_left (hold _ (by simp))))
  · intro ho
    obtain ⟨q, hq, hwait, hsu⟩ := h.done ho
    exact ⟨q, hposted ▸ List.mem_append_left _ hq, hwait, hsu⟩

theorem step_created (h : Listens lib s) (hw : Wired s) {v : ReturnValue}
    {rest : List (Await × Except Failure ReturnValue)}
    (hq : s.microtasks = (.create, .ok v) :: rest) :
    Listens lib
      ({ s with microtasks := rest, socket := .ofReply v }.emit .created .created) := by
  have hmem : .create ∈ s.awaits := List.mem_append_left _ (by simp [hq])
  have hpop := awaits_pop
    (t := { s with microtasks := rest, socket := .ofReply v }.emit .created .created) hq rfl
  have hsub : ∀ a ∈ ({ s with microtasks := rest, socket := .ofReply v }.emit .created
      .created).awaits, a ∈ s.awaits := fun a ha => hpop ▸ List.mem_cons_of_mem _ ha
  have hunheard : ¬ s.Succeeded (listenPost s.socket) := fun hs => (h.final hw hs).1 hmem
  have hquiet : ¬ s.AfterListen := fun ha => hunheard (h.after ha)
  have hnoListen : ∀ q ∈ s.asyncSrt.async.posted, q.2.method ≠ .listen := by
    intro q hq hm
    have hwait := hw.matched q hq
    rw [hm] at hwait
    exact (h.listens q hq (Await.eq_listen hwait)).2.1 hmem
  have hnoAdd : ∀ q ∈ s.asyncSrt.async.posted, q.2.method ≠ .epollAddUsock :=
    fun q hq hm => hunheard (h.adds q hq hm)
  have hnever : ∀ post, s.Succeeded post →
      post.method ≠ .listen ∧ post.method ≠ .epollAddUsock := by
    rintro post ⟨w, hx⟩
    obtain ⟨q, hq, rfl⟩ := hw.posted_of_executed hx
    exact ⟨hnoListen q hq, hnoAdd q hq⟩
  -- the reply is a number
  obtain ⟨k, rfl⟩ : ∃ k, v = .number k := by
    obtain ⟨q, hqp, o, hwait, hx, rfl⟩ := hw.replied (a := .create) (Or.inl rfl)
      (by simp [Await.method]) (hq ▸ List.mem_cons_self)
    exact h.numbers _ hx (Or.inl (hw.creates q hqp (hw.method_of_waiter hqp hwait rfl)))
  refine { h with
      undisposed := ?_
      socket := by simp [State.emit, Slot.ofReply]
      fresh := by simp [State.emit, Slot.ofReply]
      bound := ?_
      listens := ?_
      subscribes := ?_
      adds := ?_
      single := ?_
      after := ?_
      listening := ?_
      subscribed := ?_
      epid := ?_
      done := ?_ }
  · exact ⟨fun ha => h.undisposed.1 (hsub _ ha), fun ha => h.undisposed.2.1 (hsub _ ha),
      fun ha => h.undisposed.2.2 (hsub _ ha)⟩
  · intro w hv
    have hold : (.opening .bind, .ok w) ∈ s.microtasks := hq ▸ List.mem_cons_of_mem _ hv
    exact absurd hmem (h.bound w hold)
  · intro q hqp hwait
    exact absurd (hw.method_of_waiter hqp hwait rfl) (hnoListen q hqp)
  · intro q hqp hwait
    exact absurd (hw.method_of_waiter hqp hwait rfl) (hnoAdd q hqp)
  · exact fun q hqp hm => absurd hm (hnoAdd q hqp)
  · have hsingle := h.single
    rw [State.openings, hpop, List.countP_cons_of_neg (by simp [Await.opens])] at hsingle
    exact hsingle
  · rintro (⟨a, ha, haf⟩ | ho | ho)
    · exact absurd (Or.inl ⟨a, hsub a ha, haf⟩) hquiet
    · exact absurd (Or.inr (Or.inl (List.mem_of_ne_of_mem (by simp) ho))) hquiet
    · exact absurd (Or.inr (Or.inr ho)) hquiet
  · exact fun u _ hs => absurd rfl (hnever _ hs).1
  · exact fun u e _ hs => absurd rfl (hnever _ hs).2
  · rintro (ho | ho | ho)
    · exact absurd (Or.inr (Or.inl (List.mem_of_ne_of_mem (by simp) ho))) hquiet
    · exact absurd (Or.inl ⟨_, hsub _ ho, rfl⟩) hquiet
    · exact absurd (Or.inr (Or.inr (Or.inr ho))) hquiet
  · exact fun ho => absurd (Or.inr (Or.inr (Or.inr ho))) hquiet

theorem emits_opened (h : Listens lib s) (hz : s.openings = 0)
    (hs : s.Succeeded (listenPost s.socket)) (k : ℤ) :
    Listens lib ({ s with epid := .number k }.emit .opened .opened) := by
  have hnone : ∀ q ∈ s.asyncSrt.async.posted, q.1.waiter ≠ .opening .epollAddUsock := by
    have hcount : s.asyncSrt.async.posted.countP
        (fun q => q.1.waiter = .opening .epollAddUsock) = 0 := by
      rw [State.openings] at hz
      omega
    simpa using hcount
  refine { h with
      subscribes := fun q hq hwait => absurd hwait (hnone q hq)
      single := ?_
      after := fun _ => hs
      epid := fun _ => ⟨k, rfl⟩
      done := fun ho => ?_ }
  · have hcount : ({ s with epid := .number k }.emit .opened .opened).openings =
        s.openings + 1 := by
      change s.awaits.countP Await.opens + (Frame.opened :: s.stack).count .opened +
        s.asyncSrt.async.posted.countP _ = _
      rw [List.count_cons_self, State.openings]
      omega
    rw [hcount, hz]
  · obtain ⟨q, hq, hwait, _⟩ := h.done ho
    exact absurd hwait (hnone q hq)

theorem fulfils (h : Listens lib s) (hs : s.Succeeded (listenPost s.socket))
    (he : ∃ epid, s.epid = .number epid)
    (hd : ∃ q ∈ s.asyncSrt.async.posted, q.1.waiter = .opening .epollAddUsock ∧ s.Succeeded q.2) :
    Listens lib (s.ret .opening (.ok .this)) :=
  { h with after := fun _ => hs, epid := fun _ => he, done := fun _ => hd }

theorem step_deliver (h : Listens lib s) (hw : Wired s)
    (he : Enabled s (.deliver : Event ω)) : Listens lib s.deliver := by
  obtain ⟨a, v, hmicro, hqueue, hmicro', hfields⟩ := hw.delivers he
  generalize s.deliver = t at *
  have hawaits : t.awaits = s.awaits := by
    rw [awaits_eq, awaits_eq, hmicro, hmicro', hqueue]
    rfl
  have horder := h.order
  rw [hqueue, List.pairwise_cons] at horder
  simp only [Prod.mk.injEq] at hfields
  obtain ⟨hsock, hepid, _, hstack, hret, htimer, hn, hx, hp⟩ := hfields
  have hsucc := State.succeeded_congr hx
  have hopen : t.isOpen ↔ s.isOpen := by rw [State.isOpen, State.isOpen, hret]
  have hopenings : t.openings = s.openings := by
    rw [State.openings, State.openings, hawaits, hstack, hp]
  exact {
    undisposed := hawaits ▸ h.undisposed
    socket := hsock ▸ h.socket
    fresh := by
      rw [hsock, hawaits]
      exact h.fresh
    order := horder.2
    bound := by
      intro w hw' hmem
      rw [hmicro'] at hw'
      obtain ⟨rfl, _⟩ : Await.opening .bind = a ∧ _ := by simpa using hw'
      rw [hawaits, awaits_eq, hmicro, hqueue] at hmem
      rcases List.mem_cons.mp hmem with hmem | hmem
      · cases hmem
      · cases horder.1 _ hmem rfl
    listens := by
      rw [hp, hsock, hawaits]
      exact h.listens
    polls := hp ▸ h.polls
    subscribes := by
      rw [hp, hepid, hsock]
      exact h.subscribes
    adds := by
      rw [hp, hsucc, hsock]
      exact h.adds
    numbers := hx ▸ h.numbers
    single := hopenings ▸ h.single
    after := by
      rw [State.AfterListen, hawaits, hstack, htimer, hopen, hsucc, hsock]
      exact h.after
    listening := by
      rw [hsucc, hsock, hn]
      exact h.listening
    subscribed := by
      rw [hsock, hn]
      exact fun u epid hu hs => h.subscribed u epid hu ((hsucc _).mp hs)
    epid := by
      rw [hstack, hawaits, hopen, hepid]
      exact h.epid
    done := by
      rw [hopen, hp]
      intro ho
      obtain ⟨q, hq, hwait, hs⟩ := h.done ho
      exact ⟨q, hq, hwait, (hsucc _).mpr hs⟩ }

theorem step_env (h : Listens lib s) (hl : lib.Lawful) (w : ω)
    (history : List (ω ⊕ AsyncSRTWorkerPost)) :
    Listens lib { s with asyncSrt :=
      ⟨s.asyncSrt.async, lib.env s.asyncSrt.native w, history⟩ } := by
  refine { h with listening := fun u hu hs => ?_, subscribed := fun u epid hu hs => ?_ }
  · exact hl.only_close_ends_listening _ (.env w) u (by simp) (h.listening u hu hs)
  · exact hl.only_close_unsubscribes _ (.env w) epid u (by simp) (h.subscribed u epid hu hs)

theorem step_executes (h : Listens lib s) (hl : lib.Lawful) (hw : Wired s)
    {data : AsyncSRTWorkerPost} {rest : List AsyncSRTWorkerPost}
    (hq : s.asyncSrt.async.toWorker = data :: rest) (he : s.endsListening lib data = false)
    (history : List (ω ⊕ AsyncSRTWorkerPost)) :
    Listens lib { s with asyncSrt :=
      ⟨s.asyncSrt.async.exec data (lib.call s.asyncSrt.native data).2,
        (lib.call s.asyncSrt.native data).1, history⟩ } := by
  obtain ⟨_, hu, q, hqp, hdata, hwait⟩ := hw.executing hq
  have hexec := exec_executed s.asyncSrt.async hu
  have hkept : ∀ u, s.socket = .number u → s.Succeeded (listenPost s.socket) →
      lib.Acts (fun a => a ≠ .run (.close u)) s.asyncSrt.native
        (lib.call s.asyncSrt.native data).1 := by
    intro u hsock hs
    apply Libsrt.acts_call_unclosed
    simpa [State.endsListening, hsock, h.listening u hsock hs] using he
  have hmono : ∀ post, s.Succeeded post → ∀ o, ∃ v,
      (post, .ok v) ∈ (s.asyncSrt.async.exec data o).executed := by
    rintro post ⟨v, hx⟩ o
    exact ⟨v, hexec o ▸ List.mem_append_left _ hx⟩
  refine { h with
      adds := fun q hq hm => hmono _ (h.adds q hq hm) _
      numbers := ?_
      after := fun ha => hmono _ (h.after ha) _
      listening := ?_
      subscribed := ?_
      done := fun ho => ?_ }
  · intro x hx hpost
    rw [hexec] at hx
    rcases List.mem_append.mp hx with hx | hx
    · exact h.numbers x hx hpost
    · rw [List.mem_singleton.mp hx] at hpost ⊢
      rcases hpost with hpost | hpost
      · rw [show data = createPost from hpost]
        exact Libsrt.createSocket_number _ _
      · rw [show data = epollCreatePost from hpost]
        exact Libsrt.runOrThrow_number _ _ _
  · rintro u hsock ⟨v, hx⟩
    rw [hexec] at hx
    rcases List.mem_append.mp hx with hx | hx
    · exact hl.listening (hkept u hsock ⟨v, hx⟩) (h.listening u hsock ⟨v, hx⟩)
    · obtain ⟨hpost, ho⟩ := Prod.mk.inj (List.mem_singleton.mp hx)
      have hpost : data = listenPost (.number u) := hpost.symm.trans (congrArg listenPost hsock)
      subst hpost
      exact hl.listens ho.symm
  · rintro u epid hsock ⟨v, hx⟩
    rw [hexec] at hx
    rcases List.mem_append.mp hx with hx | hx
    · obtain ⟨q', hq', he'⟩ := hw.posted_of_executed hx
      have hs := h.adds q' hq' (by rw [he']; rfl)
      exact hl.subscribed (hkept u hsock hs) (h.subscribed u epid hsock ⟨v, hx⟩)
    · obtain ⟨hpost, ho⟩ := Prod.mk.inj (List.mem_singleton.mp hx)
      have hpost : data = subscribePost (.number epid) (.number u) :=
        hpost.symm.trans (congrArg (subscribePost _) hsock)
      subst hpost
      exact hl.subscribes ho.symm
  · obtain ⟨q, hq, hwait, hs⟩ := h.done ho
    exact ⟨q, hq, hwait, hmono _ hs _⟩

/-! ## Steps of the object -/

theorem same (h : Listens lib s)
    (he : (t.asyncSrt, t.microtasks, t.socket, t.epid, t.startedToDispose, t.stack, t.returns,
        t.pollEventsTimer) =
      (s.asyncSrt, s.microtasks, s.socket, s.epid, s.startedToDispose, s.stack, s.returns,
        s.pollEventsTimer)) : Listens lib t := by
  cases s
  cases t
  simp only [Prod.mk.injEq] at he
  obtain ⟨rfl, rfl, rfl, rfl, rfl, rfl, rfl, rfl⟩ := he
  exact ⟨h.undisposed, h.socket, h.fresh, h.order, h.bound, h.listens, h.polls, h.subscribes,
    h.adds, h.numbers, h.single, h.after, h.listening, h.subscribed, h.epid, h.done⟩

theorem popped (h : Listens lib s) (hw : Wired s) {x : Await × Except Failure ReturnValue}
    {rest : List (Await × Except Failure ReturnValue)} (hq : s.microtasks = x :: rest) :
    Listens lib { s with microtasks := rest } := by
  have hpop := awaits_pop (t := { s with microtasks := rest }) hq rfl
  have hsub : ∀ a ∈ { s with microtasks := rest }.awaits, a ∈ s.awaits :=
    fun a ha => hpop ▸ List.mem_cons_of_mem _ ha
  refine h.aside hw (.pop hq) (Or.inr ⟨fun ha => ?_, rfl, hsub⟩)
  exact ha.imp_left fun ⟨a, ha, haf⟩ => ⟨a, hsub a ha, haf⟩

/-- When a call of `open` before the event is answered, nothing else is under way. -/
theorem popped_openings (h : Listens lib s) {x : Await × Except Failure ReturnValue}
    {rest : List (Await × Except Failure ReturnValue)} (hq : s.microtasks = x :: rest)
    (hx : x.1.opens = true) : { s with microtasks := rest }.openings = 0 := by
  have hsingle := h.single
  rw [State.openings, awaits_pop (t := { s with microtasks := rest }) hq rfl,
    List.countP_cons_of_pos hx] at hsingle
  change { s with microtasks := rest }.awaits.countP Await.opens + s.stack.count .opened +
    s.asyncSrt.async.posted.countP _ = 0
  omega

theorem ret (h : Listens lib s) (hw : Wired s) {call : Call} {r : Except Failure CallValue}
    (hr : (call, r) ≠ fulfilled) : Listens lib (s.ret call r) := by
  have k := Aside.ret s hr
  refine h.aside hw k (Or.inr ⟨fun ha => ?_, rfl, fun _ => id⟩)
  exact ha.imp_right (Or.imp_right (Or.imp_right k.returns))

theorem unlessFailed (h : Listens lib s) (hw : Wired s) (v : ReturnValue) (e : SocketError)
    (ht : v ≠ .number SRT_ERROR → Listens lib t) : Listens lib (s.unlessFailed v e t) := by
  unfold State.unlessFailed
  split
  · exact h.ret hw (by simp [fulfilled])
  · rename_i hv
    exact ht hv

theorem step_resumeOpen (h : Listens lib s) (hw : Wired s) (hd : s.startedToDispose = false)
    {step : OpenStep} {v : ReturnValue} {rest : List (Await × Except Failure ReturnValue)}
    (hq : s.microtasks = (.opening step, .ok v) :: rest)
    (hn : step = .epollAddUsock → v ≠ .number SRT_ERROR) :
    Listens lib ({ s with microtasks := rest }.resumeOpen v step) := by
  have hstart := (hw.async_notCalled hd).1
  have hu := h.popped hw hq
  have hwu : Wired { s with microtasks := rest } := hw.pop hq
  have hpop := awaits_pop (t := { s with microtasks := rest }) hq rfl
  have hmem : .opening step ∈ s.awaits := hpop ▸ List.mem_cons_self
  have hx : (.opening step, .ok v) ∈ s.microtasks := hq ▸ List.mem_cons_self
  have hsock : s.socket ≠ .null := fun hnull => by cases h.fresh hnull _ hmem
  cases step with
  | bind =>
    have hno : .create ∉ { s with microtasks := rest }.awaits :=
      fun hc => h.bound v hx (hpop ▸ List.mem_cons_of_mem _ hc)
    exact hu.unlessFailed hwu v _ fun _ => hu.posts hwu hd (h.popped_openings hq rfl)
      (simple_listen s.socket _) rfl (by simp) hsock (fun _ => ⟨rfl, hno⟩) (fun he => by cases he)
      (fun he => by cases he) fun he => by cases he
  | listen =>
    refine hu.unlessFailed hwu v _ fun hv => ?_
    have hs : s.Succeeded (listenPost s.socket) := by
      obtain ⟨q, hqp, o, hwait, hexec, rfl⟩ :=
        hw.replied (Or.inr hstart) (by simp [Await.method]) hx
      rw [(h.listens q hqp hwait).1] at hexec
      cases o with
      | ok w => exact ⟨w, hexec⟩
      | error e => exact absurd rfl hv
    exact hu.posts hwu hd (h.popped_openings hq rfl) simple_epollCreate rfl (by simp) hsock
      (fun he => by cases he) (fun _ => rfl) (fun he => by cases he) fun _ => hs
  | epollCreate =>
    refine hu.unlessFailed hwu v _ fun _ => ?_
    obtain ⟨q, hqp, o, hwait, hexec, hv⟩ := hw.replied (Or.inr hstart) (by simp [Await.method]) hx
    obtain ⟨k, hk⟩ := h.numbers _ hexec (Or.inr (h.polls q hqp hwait))
    rw [hv, hk]
    exact hu.emits_opened (h.popped_openings hq rfl) (h.after (Or.inl ⟨_, hmem, rfl⟩)) k
  | epollAddUsock =>
    have hs := h.after (Or.inl ⟨_, hmem, rfl⟩)
    have hpoll := Aside.pollEvents hwu
    obtain ⟨q, hqp, o, hwait, hexec, hv⟩ := hw.replied (Or.inr hstart) (by simp [Await.method]) hx
    have hok : s.Succeeded q.2 := by
      cases o with
      | ok w => exact ⟨w, hexec⟩
      | error e => exact absurd hv (hn rfl)
    have hl := hu.aside hwu hpoll (Or.inl hs)
    obtain ⟨qs, hqs, _⟩ := hpoll.posted
    have hfields := hpoll.fields
    simp only [Prod.mk.injEq] at hfields
    obtain ⟨hsock', hepid, _, _, hexec'⟩ := hfields
    have hsucc : ∀ {post}, s.Succeeded post →
        { s with microtasks := rest }.pollEvents.Succeeded post := by
      rintro post ⟨w, hx⟩
      exact ⟨w, by rw [hexec']; exact hx⟩
    refine hl.fulfils ?_ ?_ ⟨q, ?_, hwait, hsucc hok⟩
    · rw [hsock']
      exact hsucc hs
    · rw [hepid]
      exact h.epid (Or.inr (Or.inl hmem))
    · rw [hqs]
      exact List.mem_append_left _ hqp
  | connect => exact absurd hmem h.undisposed.2.2

theorem step_create (h : Listens lib s) (hw : Wired s) (hd : s.startedToDispose = false) :
    Listens lib s.create := by
  have hcount : Wired { s with createCalls := s.createCalls + 1 } :=
    hw.frame rfl (fun _ hx => hx) hw.frames id
  have hsame : Listens lib { s with createCalls := s.createCalls + 1 } := h.same rfl
  simp only [State.create]
  by_cases hs : s.socket = .null
  · rw [if_neg (by simpa using hs), if_neg (by simp [hd])]
    have hacc := hcount.accepts hd simple_createSocket rfl
    have e := post_of_accepts hcount.invariant simple_createSocket hacc .create
    rw [e]
    exact h.step_creates hs
  · rw [if_pos (by simpa using hs)]
    exact hsame.ret hcount (by simp [fulfilled])

theorem step_openSocket (h : Listens lib s) (hw : Wired s) (hp : p.kind = .server)
    (hd : s.startedToDispose = false) (hz : s.socket ≠ .null → s.openings = 0) :
    Listens lib (s.openSocket p) := by
  simp only [State.openSocket, State.doOpen, hp]
  by_cases hs : s.socket = .null
  · rw [if_pos hs]
    exact h.ret hw (by simp [fulfilled])
  · rw [if_neg hs, if_neg (by simp [hd])]
    exact h.posts hw hd (hz hs) (simple_bind s.socket _ _) rfl (by simp) hs (fun he => by cases he)
      (fun he => by cases he) (fun he => by cases he) fun he => by cases he

theorem step_closeConnection (h : Listens lib s) (hw : Wired s) (c : ℕ) :
    Listens lib (s.closeConnection c .user) := by
  have hcall : Wired { s with closeCalls := s.closeCalls ++ [c] } :=
    hw.frame rfl (fun _ hx => hx) hw.frames id
  have hsame : Listens lib { s with closeCalls := s.closeCalls ++ [c] } := h.same rfl
  simp only [State.closeConnection]
  split
  · exact hsame
  · rename_i conn hconn
    rw [if_pos (hw.closed conn (List.mem_of_getElem? hconn))]
    exact hsame.ret hcall (by simp [fulfilled])

theorem step_listenerReturn (h : Listens lib s) (hw : Wired s) (hd : s.startedToDispose = false)
    {f : Frame} {rest : List Frame} (hs : s.stack = f :: rest) (threw : Bool) :
    let u := { s with stack := rest }
    Listens lib (if threw then u.listenerThrew f else u.afterListeners f) := by
  intro u
  have hrest : ∀ g ∈ rest, g.isClosing = false :=
    fun g hg => hw.frames g (hs ▸ List.mem_cons_of_mem _ hg)
  have hwu : Wired u := hw.frame rfl (fun _ hx => hx) hrest id
  have hcount : s.stack.count .opened = rest.count .opened + if f = .opened then 1 else 0 := by
    rw [hs, List.count_cons]
    simp
  have hu : Listens lib u := by
    have k : Aside s u := .of_eq rfl (by rw [hcount]; exact Nat.le_add_right _ _) id
    refine h.aside hw k (Or.inr ⟨fun ha => ?_, rfl, fun _ => id⟩)
    exact ha.imp_right (Or.imp_left fun ho => hs ▸ List.mem_cons_of_mem _ ho)
  have hf : f.isClosing = false := hw.frames f (hs ▸ List.mem_cons_self)
  cases threw with
  | true =>
    cases f with
    | created | opened => exact hu.ret hwu (by simp [fulfilled])
    | disposed =>
      have hstage : Wired { u with disposal := .failed } :=
        hwu.frame rfl (fun _ hx => hx) hwu.frames id
      exact (hu.same rfl : Listens lib { u with disposal := .failed }).ret hstage
        (by simp [fulfilled])
    | connection | disconnection | data c => exact hu.same rfl
    | closing c caller | closed c caller v => cases hf
  | false =>
    cases f with
    | created => exact hu.ret hwu (by simp [fulfilled])
    | opened =>
      have hmem : .opened ∈ s.stack := hs ▸ List.mem_cons_self
      have hsucc := h.after (Or.inr (Or.inl hmem))
      have hz : u.openings = 0 := by
        have hsingle := h.single
        rw [State.openings, hcount, if_pos rfl] at hsingle
        change s.awaits.countP Await.opens + rest.count .opened +
          s.asyncSrt.async.posted.countP _ = 0
        omega
      exact hu.posts hwu hd hz (simple_epollAddUsock s.epid s.socket _) rfl (by simp)
        (h.final hw hsucc).2 (fun he => by cases he) (fun he => by cases he)
        (fun _ => ⟨rfl, h.epid (Or.inl hmem)⟩) fun _ => hsucc
    | disposed =>
      have hstage : Wired { u with disposal := .finished } :=
        hwu.frame rfl (fun _ hx => hx) hwu.frames id
      exact (hu.same rfl : Listens lib { u with disposal := .finished }).ret hstage
        (by simp [fulfilled])
    | connection | disconnection | data c => exact hu.same rfl
    | closing c caller | closed c caller v => cases hf

theorem step_resume (h : Listens lib s) (hw : Wired s) (hd : s.startedToDispose = false)
    {a : Await} {r : Except Failure ReturnValue} {rest : List (Await × Except Failure ReturnValue)}
    (hq : s.microtasks = (a, r) :: rest)
    (hn : ∀ v, a = .opening .epollAddUsock → r = .ok v → v ≠ .number SRT_ERROR) :
    Listens lib ({ s with microtasks := rest }.resume a r) := by
  have hu := h.popped hw hq
  have hwu : Wired { s with microtasks := rest } := hw.pop hq
  have hmem : a ∈ s.awaits := List.mem_append_left _ (by simp [hq])
  cases a with
  | create =>
    cases r with
    | ok v => exact h.step_created hw hq
    | error e => exact hu.ret hwu (by simp [fulfilled])
  | disposeClose => exact absurd hmem h.undisposed.1
  | disposeAsync => exact absurd hmem h.undisposed.2.1
  | opening step =>
    cases r with
    | ok v => exact h.step_resumeOpen hw hd hq fun he => hn v (he ▸ rfl) rfl
    | error e => exact hu.ret hwu (by simp [fulfilled])
  | epollUWait | handling step =>
    exact hu.aside hwu (.resume hwu rfl r) (Or.inl (h.after (Or.inl ⟨_, hmem, rfl⟩)))
  | closing c caller =>
    have hwait := hw.waits _ hmem
    cases hwait

theorem step_pollTimer (h : Listens lib s) (hw : Wired s) (ht : s.pollEventsTimer = true) :
    Listens lib { s with pollEventsTimer := false }.pollEvents := by
  have hs := h.after (Or.inr (Or.inr (Or.inl ht)))
  have hwu : Wired { s with pollEventsTimer := false } :=
    hw.frame rfl (fun _ hx => hx) hw.frames id
  have hfire : Aside s { s with pollEventsTimer := false } := .of_eq rfl le_rfl id
  exact h.aside hw (hfire.trans (.pollEvents hwu)) (Or.inl hs)

theorem dispose_starts (hw : Wired s) : (s.dispose p).startedToDispose = true := by
  obtain ⟨u, hwu, e⟩ : ∃ u, Wired u ∧ u = if p.kind = .server then s.clearTimers else s := by
    split
    · exact ⟨s.clearTimers, hw.moves_clearTimers.wired, rfl⟩
    · exact ⟨s, hw, rfl⟩
  simp only [State.dispose, ← e]
  split
  · assumption
  · split
    · have hpost := post_frame (s := { u with startedToDispose := true, disposal := .closing })
        hwu.invariant (simple_close u.socket) .disposeClose
      have hf := hpost.2.2.1
      simp only [Prod.mk.injEq] at hf
      exact hf.2.1
    · rfl

theorem step (h : Listens lib s) (hl : lib.Lawful) (hw : Wired s) (hp : p.kind = .server)
    (hd : s.startedToDispose = false) {e : Event ω} (he : Enabled s e)
    (hc : ListenerSpared lib s e)
    (hd' : (next (nodeSRT lib) p s e).startedToDispose = false) :
    Listens lib (next (nodeSRT lib) p s e) := by
  obtain ⟨_, hphase⟩ := hw.async_notCalled hd
  cases e with
  | create => exact h.step_create hw hd
  | opening => exact h.step_openSocket hw hp hd (hc hd)
  | dispose =>
    have hstart := dispose_starts (p := p) hw
    exact absurd (hstart.symm.trans hd') (by decide)
  | closeConnection c => exact h.step_closeConnection hw c
  | listenerReturn threw =>
    obtain ⟨f, rest, hs⟩ := List.exists_cons_of_ne_nil he
    have hstep := h.step_listenerReturn hw hd hs threw
    simpa only [next, hs] using hstep
  | resume =>
    obtain ⟨⟨a, r⟩, rest, hq⟩ := List.exists_cons_of_ne_nil he.2
    have hstep := h.step_resume hw hd hq fun v ha hr hv => ?_
    · simpa only [next, hq] using hstep
    · subst ha hr hv
      have hno := hc hd
      simp [State.subscribing, hq] at hno
  | resumeDispose =>
    have hdisp := he.2
    simp [hphase] at hdisp
  | exec =>
    obtain ⟨data, rest, hq⟩ := List.exists_cons_of_ne_nil he.1
    have hspared := hc hd data (by simp [hq])
    rw [hw.next_exec hq]
    exact h.step_executes hl hw hq hspared _
  | deliver => exact h.step_deliver hw he
  | pollTimer => exact h.step_pollTimer hw he.2
  | pollDispose =>
    have hdisp := he.2
    simp [hphase] at hdisp
  | exited code =>
    have hdisp := he.2
    simp [hphase] at hdisp
  | env w => exact h.step_env hl w _

end Listens

/-! ## The result -/

/-- In every run that spares the listener, an open server listens. -/
theorem open_server_keeps_listening (hl : lib.Lawful) (hp : p.kind = .server) {n : σ}
    (h : ((machine (nodeSRT lib) p).restrict (ListenerSpared lib)).Execution (initial n) s) :
    KeepsListening lib s := by
  have main : Wired s ∧ (s.startedToDispose = false → Listens lib s) := by
    refine h.invariant (I := fun s => Wired s ∧ (s.startedToDispose = false → Listens lib s))
      ⟨initial_wired n, fun _ => initial_listens lib n⟩ fun u e hu he => ?_
    obtain ⟨hw, hlisten⟩ := hu
    obtain ⟨hw', hcase⟩ := step_cases hw he.1
    refine ⟨hw', fun hd' => ?_⟩
    have hd : u.startedToDispose = false := by
      by_contra hn
      have hstart := hcase.starts hw (by simpa using hn)
      exact absurd (hstart.symm.trans hd') (by decide)
    exact (hlisten hd).step hl hw hp hd he.1 he.2 hd'
  intro ho hd
  have hlisten := main.2 hd
  obtain ⟨hw, _⟩ := main
  have hs := hlisten.after (Or.inr (Or.inr (Or.inr ho)))
  obtain ⟨epid, he⟩ := hlisten.epid (Or.inr (Or.inr ho))
  obtain ⟨q, hq, hwait, hsub⟩ := hlisten.done ho
  cases hsock : s.socket with
  | null => exact absurd hsock (hlisten.final hw hs).2
  | undefined => exact absurd hsock hlisten.socket
  | number u =>
    rw [hlisten.subscribes q hq hwait, he] at hsub
    exact ⟨u, epid, rfl, he, hlisten.listening u hsock hs,
      hlisten.subscribed u epid hsock hsub⟩

theorem open_server_keeps_listening_opened :
    let s := serverMachine.runTrace (initial .empty) openRun
    fulfilled ∈ s.returns ∧ KeepsListening tableLibsrt s := by
  intro s
  have h : (serverMachine.restrict (ListenerSpared tableLibsrt)).Execution (initial .empty) _ :=
    Machine.execution_of_trace _ _ openRun (by decide)
  rw [Machine.runTrace_restrict] at h
  exact ⟨by decide, open_server_keeps_listening table_lawful rfl h⟩

/-- A client arrives, is reported by the poll, and the worker executes the `accept`. -/
def acceptingRun : List (Event TableEvent) :=
  openRun ++ [.env (.clientArrives 1)] ++ answer ++ answer ++ [.exec]

theorem accept_ends_listening :
    ¬ ∀ s : State Table TableEvent, serverMachine.Execution (initial .empty) s →
      KeepsListening tableLibsrt s := by
  intro h
  have hr := serverMachine.execution_of_trace (initial .empty) acceptingRun (by decide)
  obtain ⟨u, _, hu, _, hl, _⟩ := h _ hr (by unfold State.isOpen; decide) (by decide)
  have hone : (serverMachine.runTrace (initial .empty) acceptingRun).socket = .number 1 := by decide
  obtain rfl : 1 = u := Slot.number.inj (hone.symm.trans hu)
  exact absurd hl (by decide)

end SocketAsync
