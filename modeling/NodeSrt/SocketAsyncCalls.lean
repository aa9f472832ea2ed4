import NodeSrt.SocketAsyncOrder

/-! # Why a call was made

Every call the worker was sent has its reason in the replies that came before it. This holds
in every run, also where an awaited result is not looked at: such a result can then be
SRT_ERROR. Once the instance disposes no call is sent any more. -/
namespace SocketAsync

open AsyncValues
open TransitionSystem
open AsyncApi
open NativeSrt

variable {σ ω : Type*} {lib : Libsrt σ ω} {s t u : State σ ω} {p : Config} {x : Prompt}
  {e : Event ω} {sync : SyncSRT σ ω}

/-! ## What the replies say -/

/-- The worker executed the call and `v`, which is not SRT_ERROR, was returned. -/
def State.Gave (s : State σ ω) (post : AsyncSRTWorkerPost) (v : ReturnValue) : Prop :=
  (post, .ok v) ∈ s.asyncSrt.async.executed ∧ v ≠ .number SRT_ERROR

/-- The variable holds what a native `createSocket` returned, or nothing yet. -/
def Owned (s : State σ ω) (a : Slot) : Prop :=
  a = .null ∨ ∃ v, Replied s .create v ∧ a = .ofReply v

def Bound (p : Config) (s : State σ ω) : Prop :=
  p.kind = .server ∧ ∃ a v, s.Gave (bindPost p a) v

def Heard (s : State σ ω) (a : Slot) : Prop := ∃ v, s.Gave (listenPost a) v

def Made (s : State σ ω) (epid : Slot) : Prop :=
  ∃ v, s.Gave epollCreatePost v ∧ epid = .ofReply v

/-- The native calls of `open` that come before the event `opened`, with their success. -/
structure Chained (p : Config) (s : State σ ω) (epid socket : Slot) : Prop where
  bound : Bound p s
  heard : Heard s socket
  made : Made s epid

def Reported (s : State σ ω) (event : SRTEpollResult) : Prop :=
  ∃ events, Replied s .epollUWait (.epollResults events) ∧ event ∈ events

/-- The reason of a call, by what awaits it. -/
def Justified (p : Config) (s : State σ ω) (post : AsyncSRTWorkerPost) : Await → Prop
  | .create => post = createPost
  | .disposeClose => ∃ a, Owned s a ∧ post = (ApiCall.close a.toValue).post
  | .opening .bind => p.kind = .server ∧ ∃ a, Owned s a ∧ post = bindPost p a
  | .opening .connect => p.kind = .client ∧ ∃ a, Owned s a ∧ post = connectPost p a
  | .opening .listen => Bound p s ∧ ∃ a, Owned s a ∧ post = listenPost a
  | .opening .epollCreate => Bound p s ∧ (∃ a, Heard s a) ∧ post = epollCreatePost
  | .opening .epollAddUsock => ∃ epid a, Chained p s epid a ∧ post = subscribePost epid a
  | .epollUWait => ∃ epid v, Made s epid ∧ Replied s (.opening .epollAddUsock) v ∧
      post = pollPost epid
  | .handling (.getSockState event) => Reported s event ∧ post = statusPost event.socket
  | .handling .accept => ∃ event, Reported s event ∧ Heard s (.number event.socket) ∧
      Owned s (.number event.socket) ∧ post = acceptPost (.number event.socket)
  | .handling (.epollAddUsock fd) => ∃ epid v, Made s epid ∧ Replied s (.handling .accept) v ∧
      fd = .ofReply v ∧ post = subscribePost epid fd
  | .disposeAsync | .handling (.close _) | .closing _ _ => False

/-- The calls and replies of `t` include those of `s`. -/
structure Recalls (s t : State σ ω) : Prop where
  posted : ∀ q ∈ s.asyncSrt.async.posted, q ∈ t.asyncSrt.async.posted
  executed : ∀ y ∈ s.asyncSrt.async.executed, y ∈ t.asyncSrt.async.executed

theorem Recalls.of_eq (h : (t.asyncSrt.async.posted, t.asyncSrt.async.executed) =
    (s.asyncSrt.async.posted, s.asyncSrt.async.executed)) : Recalls s t := by
  simp only [Prod.mk.injEq] at h
  exact ⟨fun q hq => h.1 ▸ hq, fun y hy => h.2 ▸ hy⟩

theorem Change.executed (hc : Change sync p s e t) (h : Wired s) :
    s.asyncSrt.async.executed <+: t.asyncSrt.async.executed := by
  cases hc.acts h with
  | none he => exact (Prod.mk.inj he).2 ▸ List.prefix_rfl
  | exec hq he =>
    simp only [Prod.mk.injEq] at he
    exact ⟨_, he.2.1.symm⟩
  | env he =>
    simp only [Prod.mk.injEq] at he
    exact he.2.1 ▸ List.prefix_rfl

theorem Recalls.trans (h : Recalls s t) (k : Recalls t u) : Recalls s u :=
  ⟨fun q hq => k.posted q (h.posted q hq), fun y hy => k.executed y (h.executed y hy)⟩

theorem Prompted.recalls (hx : Prompted s e x u) : Recalls s u := by
  have hsame := hx.same
  simp only [Prod.mk.injEq] at hsame
  exact .of_eq (by rw [hsame.1])

theorem Turn.recalls (ht : Turn p s x t) : Recalls s t := by
  obtain ⟨hf, qs, ms, hp, -⟩ := ht.sends
  simp only [Prod.mk.injEq] at hf
  exact ⟨fun q hq => hp ▸ List.mem_append_left _ hq, fun y hy => hf.2.2.2.1 ▸ hy⟩

theorem Change.recalls (hc : Change sync p s e t) (h : Wired s) : Recalls s t := by
  obtain ⟨qs, hp, -⟩ := hc.posted h
  exact ⟨fun q hq => hp ▸ List.mem_append_left _ hq, fun y hy => (hc.executed h).subset hy⟩

section Recall

variable (k : Recalls s t)
include k

theorem Recalls.replied {a : Await} {v : ReturnValue} (h : Replied s a v) : Replied t a v :=
  h.mono k.posted k.executed

theorem Recalls.gave {post : AsyncSRTWorkerPost} {v : ReturnValue} (h : s.Gave post v) :
    t.Gave post v := ⟨k.executed _ h.1, h.2⟩

theorem Recalls.owned {a : Slot} (h : Owned s a) : Owned t a :=
  h.imp_right fun ⟨v, hr, he⟩ => ⟨v, k.replied hr, he⟩

theorem Recalls.bound (h : Bound p s) : Bound p t := by
  obtain ⟨hp, a, v, hg⟩ := h
  exact ⟨hp, a, v, k.gave hg⟩

theorem Recalls.heard {a : Slot} (h : Heard s a) : Heard t a := by
  obtain ⟨v, hg⟩ := h
  exact ⟨v, k.gave hg⟩

theorem Recalls.made {epid : Slot} (h : Made s epid) : Made t epid := by
  obtain ⟨v, hg, he⟩ := h
  exact ⟨v, k.gave hg, he⟩

theorem Recalls.chained {epid a : Slot} (h : Chained p s epid a) : Chained p t epid a :=
  ⟨k.bound h.bound, k.heard h.heard, k.made h.made⟩

theorem Recalls.reported {event : SRTEpollResult} (h : Reported s event) : Reported t event := by
  obtain ⟨events, hr, he⟩ := h
  exact ⟨events, k.replied hr, he⟩

theorem Recalls.justified {post : AsyncSRTWorkerPost} {a : Await} (h : Justified p s post a) :
    Justified p t post a := by
  cases a with
  | create => exact h
  | disposeClose =>
    obtain ⟨b, ho, he⟩ := h
    exact ⟨b, k.owned ho, he⟩
  | opening step =>
    cases step with
    | bind | connect =>
      obtain ⟨hp, b, ho, he⟩ := h
      exact ⟨hp, b, k.owned ho, he⟩
    | listen =>
      obtain ⟨hb, b, ho, he⟩ := h
      exact ⟨k.bound hb, b, k.owned ho, he⟩
    | epollCreate =>
      obtain ⟨hb, ⟨b, hh⟩, he⟩ := h
      exact ⟨k.bound hb, ⟨b, k.heard hh⟩, he⟩
    | epollAddUsock =>
      obtain ⟨epid, b, hc, he⟩ := h
      exact ⟨epid, b, k.chained hc, he⟩
  | epollUWait =>
    obtain ⟨epid, v, hm, hr, he⟩ := h
    exact ⟨epid, v, k.made hm, k.replied hr, he⟩
  | handling step =>
    cases step with
    | getSockState event => exact ⟨k.reported h.1, h.2⟩
    | accept =>
      obtain ⟨event, hr, hh, ho, he⟩ := h
      exact ⟨event, k.reported hr, k.heard hh, k.owned ho, he⟩
    | epollAddUsock fd =>
      obtain ⟨epid, v, hm, hr, hrest⟩ := h
      exact ⟨epid, v, k.made hm, k.replied hr, hrest⟩
    | close fd => exact h
  | disposeAsync | closing c caller => exact h

end Recall

theorem Replied.gave {a : Await} {v : ReturnValue} (h : Replied s a v)
    (hv : v ≠ .number SRT_ERROR) :
    ∃ q ∈ s.asyncSrt.async.posted, q.1.waiter = a ∧ s.Gave q.2 v := by
  obtain ⟨q, hq, o, hwait, hx, rfl⟩ := h
  cases o with
  | ok w => exact ⟨q, hq, hwait, hx, hv⟩
  | error e => exact absurd rfl hv

/-! ## The invariant -/

structure Grounded (p : Config) (s : State σ ω) : Prop where
  justified : ∀ q ∈ s.asyncSrt.async.posted, Justified p s q.2 q.1.waiter
  answers : ∀ a v, (a, .ok v) ∈ s.microtasks → a.method ≠ none →
    Replied s a v ∨ v = .undefined ∧ s.asyncSrt.async.startedToDispose = true
  socket : Owned s s.socket
  epid : s.epid = .null ∨ Made s s.epid ∨ s.asyncSrt.async.startedToDispose = true
  set : s.epid = .null → .opened ∉ s.stack ∧
    ∀ q ∈ s.asyncSrt.async.posted, q.2.method ≠ .epollAddUsock
  opened : .opened ∈ s.stack → s.asyncSrt.async.startedToDispose = true ∨
    Chained p s s.epid s.socket
  timer : s.pollEventsTimer = true → ∃ v, Replied s .epollUWait v

theorem initial_grounded (p : Config) (n : σ) : Grounded p (initial n : State σ ω) := by
  constructor <;> simp [initial, Backed.initial, AsyncApi.initial, Owned]

theorem Made.ne_null {epid : Slot} (h : Made s epid) : epid ≠ .null := by
  obtain ⟨v, -, rfl⟩ := h
  cases v <;> simp [Slot.ofReply]

theorem toValue_injective {a b : Slot} (h : a.toValue = b.toValue) : a = b := by
  cases a <;> cases b <;> simp_all [Slot.toValue]

theorem listenPost_injective {a b : Slot} (h : listenPost a = listenPost b) : a = b := by
  have hargs := congrArg AsyncSRTWorkerPost.args h
  simp only [listenPost, ApiCall.post, List.cons.injEq] at hargs
  exact toValue_injective hargs.1

theorem subscribePost_injective {epid epid' a b : Slot}
    (h : subscribePost epid a = subscribePost epid' b) : epid = epid' ∧ a = b := by
  have hargs := congrArg AsyncSRTWorkerPost.args h
  simp only [subscribePost, ApiCall.post, List.cons.injEq] at hargs
  exact ⟨toValue_injective hargs.1, toValue_injective hargs.2.1⟩

theorem Justified.adds {a : Await} {post : AsyncSRTWorkerPost} (h : Justified p s post a)
    (ha : a.method = some .epollAddUsock) : ∃ epid fd, post = subscribePost epid fd ∧
      (a = .opening .epollAddUsock ∧ Chained p s epid fd ∨
        a = .handling (.epollAddUsock fd) ∧ Made s epid ∧
          ∃ v, Replied s (.handling .accept) v ∧ fd = .ofReply v) := by
  cases a with
  | opening step =>
    cases step with
    | epollAddUsock =>
      obtain ⟨epid, b, hc, hpost⟩ := h
      exact ⟨epid, b, hpost, Or.inl ⟨rfl, hc⟩⟩
    | bind | listen | epollCreate | connect => cases ha
  | handling step =>
    cases step with
    | epollAddUsock fd =>
      obtain ⟨epid, v, hm, hr, hfd, hpost⟩ := h
      exact ⟨epid, fd, hpost, Or.inr ⟨rfl, hm, v, hr, hfd⟩⟩
    | getSockState event | accept | close fd => cases ha
  | create | disposeClose | disposeAsync | epollUWait | closing c caller => cases ha

theorem Justified.made {a : Await} {epid fd : Slot}
    (h : Justified p s (subscribePost epid fd) a) (ha : a.method = some .epollAddUsock) :
    Made s epid := by
  obtain ⟨epid', fd', hpost, hadds⟩ := h.adds ha
  obtain ⟨rfl, rfl⟩ := subscribePost_injective hpost
  exact hadds.elim (fun hopen => hopen.2.made) fun hhandle => hhandle.2.1

/-- The socket that listens is that of the object as long as the worker is there. -/
theorem Ordered.heard_eq (h : Ordered s) (hw : Wired s) (hwork : s.asyncSrt.async.worker = true)
    {a : Slot} (ha : Heard s a) : a = s.socket := by
  obtain ⟨v, hx, -⟩ := ha
  obtain ⟨q, hq, he⟩ := hw.posted_of_executed hx
  have hm := hw.matched q hq
  rw [he] at hm
  have hpost := (h.final q hq (Await.eq_listen hm)).2.2 hwork
  exact listenPost_injective (he.symm.trans hpost)

namespace Grounded

theorem replied (h : Grounded p s) {a : Await} {v : ReturnValue}
    (hx : (a, .ok v) ∈ s.microtasks) (ha : a.method ≠ none)
    (hd : v ≠ .undefined ∨ s.asyncSrt.async.startedToDispose = false) : Replied s a v := by
  rcases h.answers a v hx ha with hr | ⟨hv, hs⟩
  · exact hr
  · rcases hd with hd | hd
    · exact absurd hv hd
    · simp [hd] at hs

theorem justified_of_replied (h : Grounded p s) {a : Await} {v : ReturnValue}
    (hr : Replied s a v) : ∃ post, Justified p s post a := by
  obtain ⟨q, hq, o, hwait, -⟩ := hr
  exact ⟨q.2, hwait ▸ h.justified q hq⟩

/-- The poll that an event was reported to, or that set the timer, followed an opening. -/
theorem added_of_polled (h : Grounded p s) {v : ReturnValue} (hr : Replied s .epollUWait v) :
    ∃ w, Replied s (.opening .epollAddUsock) w := by
  obtain ⟨post, epid, w, -, hw, -⟩ := h.justified_of_replied hr
  exact ⟨w, hw⟩

theorem chained_of_added (h : Grounded p s) {v : ReturnValue}
    (hr : Replied s (.opening .epollAddUsock) v) : ∃ epid a, Chained p s epid a := by
  obtain ⟨post, epid, a, hc, -⟩ := h.justified_of_replied hr
  exact ⟨epid, a, hc⟩

theorem made_of_added (h : Grounded p s) (hw : Wired s) {v : ReturnValue}
    (hr : Replied s (.opening .epollAddUsock) v)
    (hd : s.asyncSrt.async.startedToDispose = false) : Made s s.epid := by
  obtain ⟨q, hq, -, hwait, -⟩ := hr
  rcases h.epid with hnull | hm | hs
  · exact absurd (hw.method_of_waiter hq hwait rfl) ((h.set hnull).2 q hq)
  · exact hm
  · simp [hd] at hs

theorem reason (h : Grounded p s) (ho : Ordered s) (hw : Wired s) (hx : Prompted s e x u)
    {a : Await} {post : AsyncSRTWorkerPost} (hc : Calls p u x a post)
    (hd : s.asyncSrt.async.startedToDispose = false) : Justified p s post a := by
  have htoken : ∀ {b v}, x = .await b (.ok v) → b.method ≠ none → Replied s b v := by
    rintro b v rfl hb
    cases hx with
    | await hs hq => exact h.replied (hq ▸ List.mem_cons_self) hb (Or.inr hd)
  have hsame := hx.same
  simp only [Prod.mk.injEq] at hsame
  obtain ⟨-, hsocket, -, hepid, -⟩ := hsame
  have hwork := hw.held hd
  cases hc with
  | bind hp | connect hp => exact ⟨hp, _, hsocket ▸ h.socket, rfl⟩
  | listen hv =>
    obtain ⟨q, hq, hwait, hg⟩ := (htoken rfl (by simp [Await.method])).gave hv
    have hj := h.justified q hq
    rw [hwait] at hj
    obtain ⟨hp, b, -, hb⟩ := hj
    exact ⟨⟨hp, b, _, hb ▸ hg⟩, _, hsocket ▸ h.socket, rfl⟩
  | epollCreate hv =>
    obtain ⟨q, hq, hwait, hg⟩ := (htoken rfl (by simp [Await.method])).gave hv
    have hj := h.justified q hq
    rw [hwait] at hj
    obtain ⟨hbound, b, -, hb⟩ := hj
    exact ⟨hbound, ⟨b, _, hb ▸ hg⟩, rfl⟩
  | subscribe =>
    cases hx with
    | listeners hs =>
      rcases h.opened (hs ▸ List.mem_cons_self) with hstart | hchain
      · simp [hd] at hstart
      · exact ⟨_, _, hchain, rfl⟩
  | poll =>
    have hr := htoken rfl (by simp [Await.method])
    exact ⟨_, _, hepid ▸ h.made_of_added hw hr hd, hr, rfl⟩
  | pollAgain =>
    cases hx with
    | timer hi ht =>
      obtain ⟨v, hv⟩ := h.timer ht
      obtain ⟨w, hr⟩ := h.added_of_polled hv
      exact ⟨_, _, h.made_of_added hw hr hd, hr, rfl⟩
  | status he => exact ⟨⟨_, htoken rfl (by simp [Await.method]), he⟩, rfl⟩
  | @accept event hs =>
    obtain ⟨q, hq, o, hwait, -⟩ := htoken rfl (by simp [Await.method])
    have hj := h.justified q hq
    rw [hwait] at hj
    obtain ⟨⟨events, hr, he⟩, -⟩ := hj
    obtain ⟨w, hadd⟩ := h.added_of_polled hr
    obtain ⟨epid, b, hchain⟩ := h.chained_of_added hadd
    have hb := ho.heard_eq hw hwork hchain.heard
    have hsock : s.socket = .number event.socket := hsocket.symm.trans hs
    refine ⟨event, ⟨events, hr, he⟩, ?_, hsock ▸ h.socket, by rw [hs]⟩
    rw [← hsock, ← hb]
    exact hchain.heard
  | @add v =>
    have hr := htoken rfl (by simp [Await.method])
    obtain ⟨post, event, ⟨events, hpoll, -⟩, -⟩ := h.justified_of_replied hr
    obtain ⟨w, hadd⟩ := h.added_of_polled hpoll
    exact ⟨_, v, hepid ▸ h.made_of_added hw hadd hd, hr, rfl, rfl⟩

theorem frame (h : Grounded p s) (k : Recalls s t)
    (hp : ∀ q ∈ t.asyncSrt.async.posted, q ∈ s.asyncSrt.async.posted ∨
      Justified p t q.2 q.1.waiter ∧ q.2.method ≠ .epollAddUsock)
    (hm : ∀ a v, (a, .ok v) ∈ t.microtasks → a.method ≠ none → (a, .ok v) ∈ s.microtasks ∨
      Replied t a v ∨ v = .undefined ∧ t.asyncSrt.async.startedToDispose = true)
    (hs : s.asyncSrt.async.startedToDispose = true → t.asyncSrt.async.startedToDispose = true)
    (hsock : Owned t t.socket) (hepid : t.epid = s.epid)
    (hstack : .opened ∈ t.stack → .opened ∈ s.stack ∧ t.socket = s.socket)
    (ht : t.pollEventsTimer = true → s.pollEventsTimer = true) : Grounded p t where
  justified q hq := (hp q hq).elim (fun hq => k.justified (h.justified q hq)) And.left
  answers a v hx ha := (hm a v hx ha).elim
    (fun hx => (h.answers a v hx ha).imp k.replied (And.imp_right hs)) id
  socket := hsock
  epid := by
    rw [hepid]
    exact h.epid.imp_right (Or.imp k.made hs)
  set := by
    rw [hepid]
    intro hnull
    obtain ⟨hno, hnone⟩ := h.set hnull
    exact ⟨fun ho => hno (hstack ho).1, fun q hq => (hp q hq).elim (hnone q) And.right⟩
  opened ho := by
    obtain ⟨ho, he⟩ := hstack ho
    rw [hepid, he]
    exact (h.opened ho).imp hs k.chained
  timer hf := by
    obtain ⟨v, hr⟩ := h.timer (ht hf)
    exact ⟨v, k.replied hr⟩

theorem quiet (h : Grounded p s) (k : Recalls s t)
    (hp : ∀ q ∈ t.asyncSrt.async.posted, q ∈ s.asyncSrt.async.posted)
    (hm : ∀ y ∈ t.microtasks, y ∈ s.microtasks)
    (hs : s.asyncSrt.async.startedToDispose = true → t.asyncSrt.async.startedToDispose = true)
    (he : (t.socket, t.epid) = (s.socket, s.epid))
    (hstack : .opened ∈ t.stack → .opened ∈ s.stack)
    (ht : t.pollEventsTimer = true → s.pollEventsTimer = true) : Grounded p t := by
  simp only [Prod.mk.injEq] at he
  refine h.frame k (fun q hq => Or.inl (hp q hq)) (fun a v hx _ => Or.inl (hm _ hx)) hs ?_ he.2
    (fun ho => ⟨hstack ho, he.1⟩) ht
  rw [he.1]
  exact k.owned h.socket

theorem prompted (h : Grounded p s) (hx : Prompted s e x u) : Grounded p u := by
  cases hx with
  | user => exact h
  | await hs hq =>
    exact h.quiet (.of_eq rfl) (fun _ hq => hq) (fun _ hy => hq ▸ List.mem_cons_of_mem _ hy) id
      rfl id id
  | listeners hs =>
    exact h.quiet (.of_eq rfl) (fun _ hq => hq) (fun _ hy => hy) id rfl
      (fun ho => hs ▸ List.mem_cons_of_mem _ ho) id
  | timer =>
    exact h.quiet (.of_eq rfl) (fun _ hq => hq) (fun _ hy => hy) id rfl id fun ht => by cases ht

theorem made_of_sets (h : Grounded p s) (hx : Prompted s e x u) (hset : SetsEpid x t.epid)
    (hd : s.asyncSrt.async.startedToDispose = false) :
    Bound p s ∧ (∃ a, Heard s a) ∧ Made s t.epid := by
  obtain ⟨v, hv, rfl, he⟩ := hset
  cases hx with
  | await hs hq =>
    have hr := h.replied (v := v) (hq ▸ List.mem_cons_self) (by simp [Await.method]) (Or.inr hd)
    obtain ⟨q, hmem, hwait, hg⟩ := hr.gave hv
    have hj := h.justified q hmem
    rw [hwait] at hj
    obtain ⟨hbound, hheard, hpost⟩ := hj
    exact ⟨hbound, hheard, v, hpost ▸ hg, he⟩

theorem turn_justified (h : Grounded p s) (ho : Ordered s) (hw : Wired s) (hx : Prompted s e x u)
    (ht : Turn p u x t) : ∀ q ∈ t.asyncSrt.async.posted, Justified p t q.2 q.1.waiter := by
  have hsame := hx.same
  simp only [Prod.mk.injEq] at hsame
  obtain ⟨-, qs, ms, hp, -, -, hqs, -⟩ := ht.sends
  intro q hq
  rw [hp] at hq
  rcases List.mem_append.mp hq with hq | hq
  · exact ht.recalls.justified ((h.prompted hx).justified q hq)
  · obtain ⟨hc, hd, -⟩ := hqs q hq
    exact (hx.recalls.trans ht.recalls).justified (h.reason ho hw hx hc (hsame.1 ▸ hd))

theorem turn_answers (h : Grounded p s) (hx : Prompted s e x u) (ht : Turn p u x t) {a : Await}
    {v : ReturnValue} (hy : (a, .ok v) ∈ t.microtasks) (ha : a.method ≠ none) :
    Replied t a v ∨ v = .undefined ∧ t.asyncSrt.async.startedToDispose = true := by
  obtain ⟨hf, qs, ms, -, -, hm, -, hms⟩ := ht.sends
  simp only [Prod.mk.injEq] at hf
  obtain ⟨-, -, -, -, hstart, -⟩ := hf
  rw [hm] at hy
  rw [hstart]
  rcases List.mem_append.mp hy with hy | hy
  · exact ((h.prompted hx).answers a v hy ha).imp_left ht.recalls.replied
  · rcases hms _ hy with ⟨⟨event, w, fd, -, he⟩, -⟩ | ⟨-, ⟨e, he⟩ | ⟨he, hs⟩⟩
    · have he : a = .handling (.close fd) := he
      exact absurd (by rw [he]; rfl) ha
    · cases he
    · exact Or.inr ⟨Except.ok.inj he, hs⟩

theorem turn_set (h : Grounded p s) (ho : Ordered s) (hw : Wired s) (hx : Prompted s e x u)
    (ht : Turn p u x t) (hnull : t.epid = .null) : .opened ∉ t.stack ∧
      ∀ q ∈ t.asyncSrt.async.posted, q.2.method ≠ .epollAddUsock := by
  have hkept : t.epid = u.epid := ht.epid.resolve_right fun hset => by
    obtain ⟨v, -, -, he⟩ := hset
    cases v <;> simp [he, Slot.ofReply] at hnull
  obtain ⟨hno, hnone⟩ := (h.prompted hx).set (hkept ▸ hnull)
  constructor
  · intro hmem
    rcases ht.stack _ hmem with hmem | ⟨-, hserves | ⟨-, v, -, -, he⟩⟩
    · exact hno hmem
    · cases hserves
    · cases v <;> simp [he, Slot.ofReply] at hnull
  · intro q hq hmethod
    have hj := h.turn_justified ho hw hx ht q hq
    obtain ⟨-, qs, ms, hp, -, -, hqs, -⟩ := ht.sends
    rw [hp] at hq
    rcases List.mem_append.mp hq with hq | hq
    · exact hnone q hq hmethod
    · obtain ⟨fd, ha, he⟩ := (hqs q hq).1.subscribes hmethod
      rw [he] at hj
      exact (hj.made ha).ne_null (hkept ▸ hnull)

theorem turn_opened (h : Grounded p s) (ho : Ordered s) (hw : Wired s) (hx : Prompted s e x u)
    (ht : Turn p u x t) (hmem : .opened ∈ t.stack) :
    t.asyncSrt.async.startedToDispose = true ∨ Chained p t t.epid t.socket := by
  have hf := ht.sends.fields
  have hsame := hx.same
  simp only [Prod.mk.injEq] at hf hsame
  obtain ⟨hasync, hsocket, -⟩ := hsame
  obtain ⟨hsock, -, -, -, hstart, -⟩ := hf
  by_cases hd : t.asyncSrt.async.startedToDispose = true
  · exact Or.inl hd
  · have hd : s.asyncSrt.async.startedToDispose = false := by
      rw [← hasync, ← hstart]
      simpa using hd
    refine Or.inr ?_
    rcases ht.stack _ hmem with hmem | ⟨-, hserves | ⟨-, hset⟩⟩
    · -- the frame is not pushed and the epoll not set in one turn
      have hkept : t.epid = u.epid := ht.epid.resolve_right fun ⟨v, _, hawait, _⟩ => by
        subst hawait
        cases hx with
        | await hs hq =>
          have hmem : Frame.opened ∈ s.stack := hmem
          simp [hs] at hmem
      rw [hkept, hsock]
      exact ht.recalls.chained
        (((h.prompted hx).opened hmem).resolve_left (by simp [hasync, hd]))
    · cases hserves
    · obtain ⟨hbound, ⟨a, hheard⟩, hmade⟩ := h.made_of_sets hx hset hd
      rw [hsock, hsocket, ← ho.heard_eq hw (hw.held hd) hheard]
      exact (hx.recalls.trans ht.recalls).chained ⟨hbound, hheard, hmade⟩

theorem turn (h : Grounded p s) (ho : Ordered s) (hw : Wired s) (hx : Prompted s e x u)
    (ht : Turn p u x t) : Grounded p t := by
  have hu := h.prompted hx
  have hf := ht.sends.fields
  have hsame := hx.same
  simp only [Prod.mk.injEq] at hf hsame
  obtain ⟨hsock, -, -, -, hstart, -⟩ := hf
  exact {
    justified := h.turn_justified ho hw hx ht
    answers := fun a v hy ha => h.turn_answers hx ht hy ha
    socket := by
      rw [hsock]
      exact ht.recalls.owned hu.socket
    epid := by
      rcases ht.epid with he | hset
      · rw [he, hstart]
        exact hu.epid.imp_right (Or.imp_left ht.recalls.made)
      · refine Or.inr ?_
        cases hd : t.asyncSrt.async.startedToDispose with
        | true => exact Or.inr rfl
        | false =>
          have hd : s.asyncSrt.async.startedToDispose = false := hsame.1 ▸ hstart ▸ hd
          exact Or.inl ((hx.recalls.trans ht.recalls).made (h.made_of_sets hx hset hd).2.2)
    set := h.turn_set ho hw hx ht
    opened := h.turn_opened ho hw hx ht
    timer := fun hf => by
      rcases ht.timer hf with hf | ⟨events, rfl⟩
      · obtain ⟨v, hr⟩ := hu.timer hf
        exact ⟨v, ht.recalls.replied hr⟩
      · cases hx with
        | await hs hq =>
          have hr := h.replied (v := .epollResults events) (hq ▸ List.mem_cons_self)
            (by simp [Await.method]) (Or.inl (by simp))
          exact ⟨_, ht.recalls.replied hr⟩ }

theorem step_delivers (h : Grounded p s) (hw : Wired s) (he : Enabled s (.deliver : Event ω)) :
    Grounded p s.deliver := by
  have hsame := (hw.moves_deliver he).ordinary.async
  obtain ⟨-, -, -, -, -, hfields⟩ := hw.delivers he
  obtain ⟨q, ks, v, e, -, -, -, -, hr⟩ := hw.deliver_eq he.2
  simp only [Prod.mk.injEq] at hsame hfields
  obtain ⟨hsock, hepid, -, hstack, -, htimer, -, hexec, hp⟩ := hfields
  have k : Recalls s s.deliver := .of_eq (by rw [hp, hexec])
  refine h.frame k (fun q hq => Or.inl (hp ▸ hq)) (fun a w hx _ => ?_)
    (fun hd => hsame.2.2.1.trans hd) (hsock ▸ k.owned h.socket) hepid
    (fun ho => ⟨hstack ▸ ho, hsock⟩) fun ht => htimer ▸ ht
  rw [e] at hx
  rcases List.mem_append.mp hx with hx | hx
  · exact Or.inl hx
  · cases List.mem_singleton.mp hx
    exact Or.inr (Or.inl (k.replied hr))

theorem step_creates (h : Grounded p s) :
    Grounded p ({ s with createCalls := s.createCalls + 1 }.setAsync
      (s.asyncSrt.async.accept (.createSocket .undefined) false .create)) := by
  have k : Recalls s ({ s with createCalls := s.createCalls + 1 }.setAsync
      (s.asyncSrt.async.accept (.createSocket .undefined) false .create)) :=
    ⟨fun q hq => List.mem_append_left _ hq, fun y hy => hy⟩
  refine h.frame k (fun q hq => ?_) (fun a v hx _ => Or.inl hx) id (k.owned h.socket) rfl
    (fun ho => ⟨ho, rfl⟩) id
  rcases List.mem_append.mp hq with hq | hq
  · exact Or.inl hq
  · cases List.mem_singleton.mp hq
    exact Or.inr ⟨rfl, by simp [ApiCall.post]⟩

theorem step_created (h : Grounded p s) (hw : Wired s) (hs : s.stack = []) {v : ReturnValue}
    {rest : List (Await × Except Failure ReturnValue)}
    (hq : s.microtasks = (.create, .ok v) :: rest) :
    Grounded p ({ s with microtasks := rest, socket := .ofReply v }.emit .created .created) := by
  have hr := hw.replied (v := v) (Or.inl rfl) (by simp [Await.method]) (hq ▸ List.mem_cons_self)
  refine h.frame (.of_eq rfl) (fun q hq => Or.inl hq)
    (fun a w hx _ => Or.inl (hq ▸ List.mem_cons_of_mem _ hx)) id (Or.inr ⟨v, hr, rfl⟩) rfl
    (fun ho => ?_) id
  rcases List.mem_cons.mp ho with ho | ho
  · cases ho
  · have ho : Frame.opened ∈ s.stack := ho
    simp [hs] at ho

theorem step_closes (h : Grounded p s) (hw : Wired s) {timer : Bool}
    (ht : timer = true → s.pollEventsTimer = true) :
    Grounded p ({ s with
      pollEventsTimer := timer
      startedToDispose := true
      disposal := .closing }.post (.close s.socket.toValue) .disposeClose) := by
  obtain ⟨hf, he, qs, ms, hp, -, hm, hqs, hms⟩ :=
    (hw.closing timer).post_sends (simple_close s.socket) .disposeClose
  simp only [Prod.mk.injEq] at hf he
  obtain ⟨hsock, -, -, hexec, hstart, -⟩ := hf
  obtain ⟨hstack, -, htimer, -, -, hepid⟩ := he
  generalize State.post _ _ _ = t at *
  have k : Recalls s t := ⟨fun q hq => hp ▸ List.mem_append_left _ hq, fun y hy => hexec ▸ hy⟩
  refine h.frame k (fun q hq => ?_) (fun a v hx _ => ?_) (fun hd => hstart.trans hd)
    (hsock ▸ k.owned h.socket) hepid (fun ho => ⟨hstack ▸ ho, hsock⟩) fun hf => ht (htimer ▸ hf)
  · rw [hp] at hq
    rcases List.mem_append.mp hq with hq | hq
    · exact Or.inl hq
    · obtain ⟨hwait, hpost, -⟩ := hqs q hq
      rw [hwait, hpost]
      exact Or.inr ⟨⟨s.socket, k.owned h.socket, rfl⟩, by simp [ApiCall.post]⟩
  · rw [hm] at hx
    rcases List.mem_append.mp hx with hx | hx
    · exact Or.inl hx
    · rcases (hms _ hx).2 with ⟨e, he⟩ | ⟨he, hd⟩
      · cases he
      · exact Or.inr (Or.inr ⟨Except.ok.inj he, hstart.trans hd⟩)

theorem step_closed (h : Grounded p s) (ho : Ordered s) (hw : Wired s) {v : ReturnValue}
    {rest : List (Await × Except Failure ReturnValue)}
    (hq : s.microtasks = (.disposeClose, .ok v) :: rest) :
    Grounded p { s with microtasks := rest }.disposeAsync := by
  have hwp : Wired { s with microtasks := rest } := hw.pop hq
  have hmem : .disposeClose ∈ s.awaits := mem_awaits.mpr (Or.inl ⟨_, hq ▸ List.mem_cons_self⟩)
  have hstart := ho.unstarted hmem
  obtain ⟨hsame, hstarted, -⟩ := hwp.dispose_same hstart
  simp only [Prod.mk.injEq] at hsame
  rw [hwp.disposeAsync_eq hstart]
  exact h.quiet (.of_eq (by simp [State.setAsync, hsame])) (fun q hq => hsame.1 ▸ hq)
    (fun y hy => hq ▸ List.mem_cons_of_mem _ hy) (fun _ => hstarted) rfl id id

theorem step (h : Grounded p s) (ho : Ordered s) (hw : Wired s) (hc : Change sync p s e t) :
    Grounded p t := by
  cases hc with
  | turns hx _ ht => exact h.turn ho hw hx ht
  | delivers he => exact h.step_delivers hw he
  | creates => exact h.step_creates
  | created hs hq => exact h.step_created hw hs hq
  | closes ht => exact h.step_closes hw ht
  | vacuous ht =>
    refine h.quiet (.of_eq rfl) (fun _ hq => hq) (fun _ hy => hy) id rfl (fun hf => ?_) ht
    exact (List.mem_cons.mp hf).resolve_left (by simp)
  | closed _ hq => exact h.step_closed ho hw hq
  | disposed hs hq =>
    refine h.frame (.of_eq rfl) (fun _ hq => Or.inl hq)
      (fun a w hx _ => Or.inl (hq ▸ List.mem_cons_of_mem _ hx)) id (Or.inl rfl) rfl
      (fun hf => ?_) id
    rcases List.mem_cons.mp hf with hf | hf
    · cases hf
    · have hf : Frame.opened ∈ s.stack := hf
      simp [hs] at hf
  | executes hq =>
    obtain ⟨-, hu, -⟩ := hw.executing hq
    refine h.quiet ⟨fun _ hq => hq, fun y hy => ?_⟩ (fun _ hq => hq) (fun _ hy => hy) id rfl id id
    simpa [exec_executed _ hu] using Or.inl hy
  | waits hi hd =>
    simp only [AsyncApi.next]
    split
    · exact h.quiet (.of_eq rfl) (fun _ hq => hq) (fun _ hy => hy) id rfl id id
    · exact h
  | terminates _ hd =>
    have hl := hw.invariant.disposal.clear (by simp [hd]) (by simp [hd])
    have hsame := hw.terminateWorker_same hl
    simp only [Prod.mk.injEq] at hsame
    obtain ⟨hp, hexec, -, -, hstart⟩ := hsame
    exact h.quiet (.of_eq (by simp [State.setAsync, hp, hexec])) (fun _ hq => hp ▸ hq)
      (fun _ hy => hy) (fun hs => hstart.trans hs) rfl id id
  | exits _ hd =>
    refine h.frame (.of_eq rfl) (fun _ hq => Or.inl hq) (fun a w hx ha => ?_) id
      (Recalls.owned (.of_eq rfl) h.socket) rfl (fun hf => ⟨hf, rfl⟩) id
    rcases List.mem_append.mp hx with hx | hx
    · exact Or.inl hx
    · cases List.mem_singleton.mp hx
      exact absurd rfl ha
  | env w => exact h.quiet (.of_eq rfl) (fun _ hq => hq) (fun _ hy => hy) id rfl id id

end Grounded

theorem execution_grounded {n : σ} (h : (machine sync p).Execution (initial n) s) :
    Wired s ∧ Ordered s ∧ Grounded p s :=
  h.invariant (I := fun s => Wired s ∧ Ordered s ∧ Grounded p s)
    ⟨initial_wired n, initial_ordered n, initial_grounded p n⟩
    fun _ _ hu he =>
      have hc := hu.1.changes he
      ⟨step_wired hu.1 he, hu.2.1.step hu.1 hc, hu.2.2.step hu.2.1 hu.1 hc⟩

/-! ## The sockets that are made -/

def Makes (s : State σ ω) (u : ℤ) : Prop :=
  (createPost, .ok (.number u)) ∈ s.asyncSrt.async.executed

theorem resultOf_number {o : Outcome} {k : ℤ} (h : resultOf o = .number k) :
    k = SRT_ERROR ∨ o = .ok (.number k) := by
  cases o with
  | ok v => exact Or.inr (congrArg _ h)
  | error e => exact Or.inl (ReturnValue.number.inj h).symm

theorem Slot.ofReply_number {v : ReturnValue} {k : ℤ} (h : .number k = Slot.ofReply v) :
    v = .number k := by
  cases v <;> cases h
  rfl

namespace Grounded

theorem makes_of_owned (h : Grounded p s) {u : ℤ} (ho : Owned s (.number u)) :
    u = SRT_ERROR ∨ Makes s u := by
  rcases ho with ho | ⟨v, ⟨q, hq, o, hwait, hx, hv⟩, he⟩
  · cases ho
  · have hj := h.justified q hq
    rw [hwait] at hj
    have hpost : q.2 = createPost := hj
    refine (resultOf_number (hv.symm.trans (Slot.ofReply_number he))).imp id fun ho => ?_
    rw [hpost, ho] at hx
    exact hx

/-- The object closes its own sockets only. -/
theorem owned_of_closes (h : Grounded p s) (hw : Wired s)
    {q : OnResult Await × AsyncSRTWorkerPost} (hq : q ∈ s.asyncSrt.async.posted) {m : σ} {u : ℤ}
    (hc : lib.closes m q.2 u = true) : Owned s (.number u) := by
  obtain ⟨hargs, hmem⟩ := Libsrt.closes_first hc
  have hj := h.justified q hq
  have hmatch := hw.matched q hq
  have hfirst : ∀ {a : Slot} {m : Method} {rest : List JSValue},
      q.2 = ⟨m, a.toValue :: rest⟩ → a = .number u := by
    intro a m rest he
    rw [he] at hargs
    cases a <;> simp_all [Slot.toValue]
  generalize q.1.waiter = a at hj hmatch
  cases a with
  | disposeClose =>
    obtain ⟨b, ho, he⟩ := hj
    exact hfirst he ▸ ho
  | opening step =>
    cases step with
    | bind | connect | listen =>
      obtain ⟨-, b, ho, he⟩ := hj
      exact hfirst he ▸ ho
    | epollCreate | epollAddUsock =>
      simp only [Await.method, Option.some.injEq] at hmatch
      simp [← hmatch] at hmem
  | handling step =>
    cases step with
    | accept =>
      obtain ⟨event, -, -, ho, he⟩ := hj
      exact hfirst he ▸ ho
    | getSockState event | epollAddUsock fd =>
      simp only [Await.method, Option.some.injEq] at hmatch
      simp [← hmatch] at hmem
    | close fd => exact hj.elim
  | create | epollUWait =>
    simp only [Await.method, Option.some.injEq] at hmatch
    simp [← hmatch] at hmem
  | disposeAsync | closing c caller => exact hj.elim

end Grounded

theorem Made.number {epid : Slot} (h : Made s epid)
    (hcalled : ∀ y ∈ s.asyncSrt.async.executed, ∃ m, y.2 = (lib.call m y.1).2) :
    ∃ k, epid = .number k := by
  obtain ⟨v, hg, rfl⟩ := h
  obtain ⟨m, hm⟩ := hcalled _ hg.1
  have ho : Except.ok v = (lib.epollCreate m).2 := hm
  obtain ⟨k, hk⟩ := lib.runOrThrow_number m .epollCreate (· < 0)
  have hv : v = .number k := (congrArg resultOf ho).trans hk
  exact ⟨k, congrArg Slot.ofReply hv⟩

theorem execution_handedOut (hl : lib.Lawful) {n : σ}
    (h : (machine (nodeSRT lib) p).Execution (initial n) s) :
    ∀ u, Makes s u → lib.handedOut s.asyncSrt.native u := by
  have main : Wired s ∧ ∀ u, Makes s u → lib.handedOut s.asyncSrt.native u := by
    refine h.invariant
      (I := fun s => Wired s ∧ ∀ u, Makes s u → lib.handedOut s.asyncSrt.native u)
      ⟨initial_wired n, fun u hm => by cases hm⟩ fun v e hv he => ?_
    obtain ⟨hw, hall⟩ := hv
    refine ⟨step_wired (p := p) hw he, fun u hm => ?_⟩
    have hc : Change (nodeSRT lib) p v e (next (nodeSRT lib) p v e) := hw.changes he
    show lib.handedOut (next (nodeSRT lib) p v e).asyncSrt.native u
    have hm : (createPost, .ok (.number u)) ∈
        (next (nodeSRT lib) p v e).asyncSrt.async.executed := hm
    cases hc.acts hw with
    | none heq =>
      simp only [Prod.mk.injEq] at heq
      rw [heq.2] at hm
      exact heq.1 ▸ hall u hm
    | exec hq heq =>
      simp only [Prod.mk.injEq] at heq
      rw [heq.1]
      rcases List.mem_append.mp (heq.2.1 ▸ hm) with hm | hm
      · exact hl.handedOut (lib.acts_call (P := fun _ => True) (fun _ _ => trivial)
          fun _ _ => trivial) (hall u hm)
      · obtain ⟨rfl, ho⟩ := Prod.mk.inj (List.mem_singleton.mp hm)
        exact hl.created ho.symm
    | @env w heq =>
      simp only [Prod.mk.injEq] at heq
      rw [heq.2.1] at hm
      exact heq.1 ▸ hl.handed_out_stays _ (.env w) u (hall u hm)
  exact main.2

end SocketAsync
