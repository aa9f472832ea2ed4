import NodeSrt.SocketAsync

/-! # What a step of a socket object can do

A call of the worker is accepted or refused, and no call of the socket classes makes
`postMessage` throw. Steps that neither create nor dispose are alike for the ownership
of the socket; they are the ordinary ones, and the lemmas of this module say so of each. -/
namespace SocketAsync

open AsyncValues
open TransitionSystem
open AsyncApi
open NativeSrt
open OrderedPort
open ServerConnection (SRTServerConnection)

/-! ## Posting -/

def plainValue : JSValue → Bool
  | .bytes _ | .object _ | .function _ => false
  | _ => true

@[simp] theorem plainValue_toValue (x : Slot) : plainValue x.toValue = true := by
  cases x <;> rfl

@[simp] theorem plainValue_number (n : ℤ) : plainValue (.number n) = true := rfl

@[simp] theorem plainValue_string (text : JSString) : plainValue (.string text) = true := rfl

@[simp] theorem plainValue_boolean (b : Bool) : plainValue (.boolean b) = true := rfl

/-- What the calls of the socket classes have in common. -/
structure Simple (c : ApiCall) : Prop where
  early : c.earlyError = none
  unrecorded : ∀ n r, c.writeFrame n r = []
  untimed : c.useTimeout = false
  plain : ∀ v ∈ c.post.args, plainValue v = true

theorem sendable_of_plain {args : List JSValue} (h : ∀ v ∈ args, plainValue v = true)
    (detached : Finset ArrayBuffer) : Sendable detached args := by
  have hnone : extractTransferListFromParams args = [] := by
    rw [extractTransferListFromParams, List.filterMap_eq_nil_iff]
    intro v hv
    have := h v hv
    cases v <;> first | rfl | cases this
  have hplain : ∀ v ∈ args, v.hasText = true ∧ v.Cloneable = true := by
    intro v hv
    have := h v hv
    cases v <;> first | exact ⟨rfl, rfl⟩ | cases this
  exact ⟨List.all_eq_true.mpr fun v hv => (hplain v hv).1, fun v hv => (hplain v hv).2,
    by simp [hnone], by simp [movedBuffers, hnone]⟩

@[simp] theorem recordWrite_nil {κ : Type*} (s : AsyncSRT κ) : s.recordWrite [] = s := by
  simp [AsyncSRT.recordWrite]

/-- The awaits of the object: the microtasks, then the calls the worker has not answered. -/
def State.awaits {σ ω : Type*} (s : State σ ω) : List Await :=
  s.microtasks.map Prod.fst ++ s.asyncSrt.async.workCbQueue.map OnResult.waiter

variable {σ ω : Type*} {s t : State σ ω} {c : ApiCall}

theorem Simple.accepts_or_refused (hc : Simple c) (s : AsyncSRT Await) :
    Accepts s c ∨ ¬ ReachesPost s c := by
  by_cases h : ReachesPost s c
  · exact Or.inl ⟨h, sendable_of_plain hc.plain _⟩
  · exact Or.inr h

theorem Simple.posts (hc : Simple c) (s : AsyncSRT Await) : ¬ PostThrows s c :=
  fun h => h.2.2 (sendable_of_plain hc.plain _).2

theorem Simple.traces (hc : Simple c) (s : AsyncSRT Await) : ¬ TraceThrows s c := by
  intro h
  have := (sendable_of_plain hc.plain ∅).1
  simp [h.2] at this

theorem post_of_accepts (h : Invariant s.asyncSrt.async) (hc : Simple c)
    (ha : Accepts s.asyncSrt.async c) (a : Await) :
    s.post c a = s.setAsync (s.asyncSrt.async.accept c false a) := by
  have hp : (s.asyncSrt.async.accept c false a).promise s.asyncSrt.async.nextCall = .pending :=
    (h.settled.fresh _ le_rfl).1
  simp [State.post, apiCall_of_accepts ha, hc.unrecorded, hp, State.wakeSettled]

theorem post_of_refused (hc : Simple c) (h : ¬ ReachesPost s.asyncSrt.async c) (a : Await) :
    ∃ r, s.post c a = s.wake a r ∧
      ∀ v, r = .ok v → s.asyncSrt.async.startedToDispose = true := by
  obtain ⟨n, e⟩ := apiCall_of_early h false a
  have hs : s.setAsync s.asyncSrt.async = s := rfl
  simp only [State.post, e, hc.unrecorded, recordWrite_nil, hs, AsyncSRT.earlyReturn, hc.early]
  by_cases hw : s.asyncSrt.async.worker = false
  · simp only [if_pos hw]
    exact ⟨_, rfl, fun _ h => by cases h⟩
  · by_cases hd : s.asyncSrt.async.startedToDispose = true
    · simp only [if_neg hw, if_pos hd]
      exact ⟨_, rfl, fun _ _ => hd⟩
    · simp only [if_neg hw, if_neg hd]
      exact ⟨_, rfl, fun _ h => by cases h⟩

theorem awaits_accept (s : State σ ω) (c : ApiCall) (a : Await) :
    (s.setAsync (s.asyncSrt.async.accept c false a)).awaits = s.awaits ++ [a] := by
  simp [State.awaits, State.setAsync, AsyncSRT.accept, AsyncSRT.prepare]

theorem awaits_wake (s : State σ ω) (a : Await) (r : Except Failure ReturnValue) :
    (s.wake a r).awaits.Perm (s.awaits ++ [a]) := by
  simp only [State.awaits, State.wake, List.map_append, List.map_cons, List.map_nil,
    List.append_assoc]
  exact List.Perm.append_left _ List.perm_append_comm

theorem awaits_pop {a : Await} {r : Except Failure ReturnValue}
    {rest : List (Await × Except Failure ReturnValue)} (hq : s.microtasks = (a, r) :: rest)
    (ht : (t.microtasks, t.asyncSrt) = (rest, s.asyncSrt)) : s.awaits = a :: t.awaits := by
  simp only [Prod.mk.injEq] at ht
  simp [State.awaits, hq, ht]

/-- A call adds one await, at most one post, and touches nothing else. -/
theorem post_frame (h : Invariant s.asyncSrt.async) (hc : Simple c) (a : Await) :
    (s.post c a).awaits.Perm (s.awaits ++ [a]) ∧
    (∃ ps, (s.post c a).asyncSrt.async.posted = s.asyncSrt.async.posted ++ ps ∧
      ∀ p ∈ ps, p.2 = c.post) ∧
    ((s.post c a).socket, (s.post c a).startedToDispose, (s.post c a).disposal,
      (s.post c a).createCalls, (s.post c a).stack, (s.post c a).log, (s.post c a).returns,
      (s.post c a).asyncSrt.native) =
    (s.socket, s.startedToDispose, s.disposal, s.createCalls, s.stack, s.log, s.returns,
      s.asyncSrt.native) ∧
    ((s.post c a).asyncSrt.async.executed, (s.post c a).asyncSrt.async.disposing,
      (s.post c a).asyncSrt.async.startedToDispose, (s.post c a).asyncSrt.async.worker) =
    (s.asyncSrt.async.executed, s.asyncSrt.async.disposing,
      s.asyncSrt.async.startedToDispose, s.asyncSrt.async.worker) := by
  rcases hc.accepts_or_refused s.asyncSrt.async with hacc | href
  · rw [post_of_accepts h hc hacc]
    exact ⟨.of_eq (awaits_accept s c a), ⟨[_], rfl, by simp⟩, rfl, rfl⟩
  · obtain ⟨r, e, _⟩ := post_of_refused hc href a
    rw [e]
    exact ⟨awaits_wake s a r, ⟨[], by simp [State.wake], by simp⟩, rfl, rfl⟩

/-! ## What is known of every state -/

def Await.isClosing : Await → Bool
  | .closing _ _ => true
  | _ => false

def Frame.isClosing : Frame → Bool
  | .closing _ _ | .closed _ _ _ => true
  | _ => false

/-- The awaited value is the reply to a call made for this await. -/
def Replied (s : State σ ω) (a : Await) (v : ReturnValue) : Prop :=
  ∃ p ∈ s.asyncSrt.async.posted, ∃ o, p.1.waiter = a ∧
    (p.2, o) ∈ s.asyncSrt.async.executed ∧ v = resultOf o

/-- The value of an await that is for a call: its reply, or what a disposing instance gives. -/
def Origin (s : State σ ω) (a : Await) (r : Except Failure ReturnValue) : Prop :=
  a.method = none ∨ (∃ v, r = .ok v ∧ Replied s a v) ∨
    (a ≠ .create ∧ ∀ v, r = .ok v → s.asyncSrt.async.startedToDispose = true)

def createPost : AsyncSRTWorkerPost := ⟨.createSocket, [.boolean false]⟩

/-- The calls of the object have no callbacks and no timeouts, each await is for the method
it names, and a connection, being closed from the start, never gets to close its fd. -/
structure Wired (s : State σ ω) : Prop where
  invariant : Invariant s.asyncSrt.async
  running : s.asyncSrt.async.running = none
  plain : ∀ p ∈ s.asyncSrt.async.posted, p.1.callback = false ∧ p.1.useTimeout = false
  matched : ∀ p ∈ s.asyncSrt.async.posted, p.1.waiter.method = some p.2.method
  origin : ∀ x ∈ s.microtasks, Origin s x.1 x.2
  closed : ∀ conn ∈ s.connections, conn.isClosed = true
  frames : ∀ f ∈ s.stack, f.isClosing = false
  waits : ∀ a ∈ s.awaits, a.isClosing = false
  disposing : s.asyncSrt.async.startedToDispose = true → s.startedToDispose = true
  closes : ∀ p ∈ s.asyncSrt.async.posted, p.2.method = .close → s.startedToDispose = true
  creates : ∀ p ∈ s.asyncSrt.async.posted, p.2.method = .createSocket → p.2 = createPost

theorem initial_wired (n : σ) : Wired (initial n : State σ ω) := by
  refine ⟨initial_invariant, rfl, ?_, ?_, ?_, ?_, ?_, ?_, ?_, ?_, ?_⟩ <;>
    simp [initial, Backed.initial, AsyncApi.initial, State.awaits]

theorem Replied.mono {a : Await} {v : ReturnValue} (h : Replied s a v)
    (hp : ∀ p ∈ s.asyncSrt.async.posted, p ∈ t.asyncSrt.async.posted)
    (hx : ∀ x ∈ s.asyncSrt.async.executed, x ∈ t.asyncSrt.async.executed) : Replied t a v := by
  obtain ⟨p, hmem, o, hw, hexec, hv⟩ := h
  exact ⟨p, hp p hmem, o, hw, hx _ hexec, hv⟩

theorem Origin.mono {a : Await} {r : Except Failure ReturnValue} (h : Origin s a r)
    (hp : ∀ p ∈ s.asyncSrt.async.posted, p ∈ t.asyncSrt.async.posted)
    (hx : ∀ x ∈ s.asyncSrt.async.executed, x ∈ t.asyncSrt.async.executed)
    (hd : s.asyncSrt.async.startedToDispose = true → t.asyncSrt.async.startedToDispose = true) :
    Origin t a r := by
  rcases h with h | ⟨v, hr, hv⟩ | ⟨hne, hv⟩
  · exact Or.inl h
  · exact Or.inr (Or.inl ⟨v, hr, hv.mono hp hx⟩)
  · exact Or.inr (Or.inr ⟨hne, fun v hr => hd (hv v hr)⟩)

namespace Wired

theorem post (h : Wired s) (hc : Simple c) {a : Await} (hm : a.method = some c.post.method)
    (ha : a.isClosing = false) (hcreate : a = .create → Accepts s.asyncSrt.async c)
    (hclose : c.post.method = .close → s.startedToDispose = true)
    (hsender : c.post.method = .createSocket → c.post = createPost) : Wired (s.post c a) := by
  have hwaits : ∀ {l : List Await}, l.Perm (s.awaits ++ [a]) → ∀ b ∈ l, b.isClosing = false := by
    intro l hl b hb
    rcases List.mem_append.mp (hl.mem_iff.mp hb) with hb | hb
    · exact h.waits b hb
    · rwa [List.mem_singleton.mp hb]
  rcases hc.accepts_or_refused s.asyncSrt.async with hacc | href
  · rw [post_of_accepts h.invariant hc hacc]
    have hinv : Invariant (s.asyncSrt.async.accept c false a) := by
      have := step_preserves_invariant h.invariant
        (e := .call c false a) ⟨trivial, hc.posts _⟩
      simpa [AsyncApi.next, apiCall_of_accepts hacc, hc.unrecorded] using this
    refine { h with
        invariant := hinv
        plain := ?_
        matched := ?_
        origin := ?_
        waits := hwaits (awaits_accept s c a ▸ List.Perm.refl _)
        closes := ?_
        creates := ?_ }
    · intro p hp
      rcases List.mem_append.mp hp with hp | hp
      · exact h.plain p hp
      · rw [List.mem_singleton.mp hp]
        exact ⟨rfl, hc.untimed⟩
    · intro p hp
      rcases List.mem_append.mp hp with hp | hp
      · exact h.matched p hp
      · rw [List.mem_singleton.mp hp]
        exact hm
    · intro x hx
      exact (h.origin x hx).mono (fun p hp => List.mem_append_left _ hp) (fun _ hx => hx) id
    · intro p hp hmeth
      rcases List.mem_append.mp hp with hp | hp
      · exact h.closes p hp hmeth
      · rw [List.mem_singleton.mp hp] at hmeth
        exact hclose hmeth
    · intro p hp hmeth
      rcases List.mem_append.mp hp with hp | hp
      · exact h.creates p hp hmeth
      · rw [List.mem_singleton.mp hp] at hmeth ⊢
        exact hsender hmeth
  · obtain ⟨r, e, hr⟩ := post_of_refused hc href a
    rw [e]
    refine { h with origin := ?_, waits := hwaits (awaits_wake s a r) }
    intro x hx
    rcases List.mem_append.mp hx with hx | hx
    · exact h.origin x hx
    · rw [List.mem_singleton.mp hx]
      exact Or.inr (Or.inr ⟨fun he => href (hcreate he).1, hr⟩)

end Wired

/-! ## Ordinary steps -/

/-- The awaits of the functions that create, close and dispose of the socket. -/
def Await.owning : Await → Bool
  | .create | .disposeClose | .disposeAsync | .closing _ _ => true
  | _ => false

theorem Await.isClosing_of_not_owning {a : Await} (h : a.owning = false) :
    a.isClosing = false := by
  cases a <;> first | rfl | cases h

/-- How `create` answers without a call of the worker. -/
def refusals : List (Call × Except Failure CallValue) :=
  [(.create, .error (.socket .createTwice)), (.create, .ok (.value .null))]

/-- A step that leaves the ownership of the socket alone. -/
structure Ordinary (s t : State σ ω) : Prop where
  fields : (t.socket, t.startedToDispose, t.disposal, t.createCalls, t.asyncSrt.native) =
    (s.socket, s.startedToDispose, s.disposal, s.createCalls, s.asyncSrt.native)
  async : (t.asyncSrt.async.executed, t.asyncSrt.async.disposing,
      t.asyncSrt.async.startedToDispose, t.asyncSrt.async.worker) =
    (s.asyncSrt.async.executed, s.asyncSrt.async.disposing,
      s.asyncSrt.async.startedToDispose, s.asyncSrt.async.worker)
  awaits : ∀ a : Await, a.owning = true → t.awaits.count a = s.awaits.count a
  posted : ∃ ps, t.asyncSrt.async.posted = s.asyncSrt.async.posted ++ ps ∧
    ∀ p ∈ ps, p.2.method ≠ .createSocket ∧ p.2.method ≠ .close
  log : ∃ l, t.log = s.log ++ l ∧ .disposed ∉ l
  stack : t.stack.count .disposed = s.stack.count .disposed
  returns : ∃ l, t.returns = s.returns ++ l ∧ ∀ x ∈ l, x ∉ refusals

namespace Ordinary

theorem refl (s : State σ ω) : Ordinary s s :=
  ⟨rfl, rfl, fun _ _ => rfl, ⟨[], by simp⟩, ⟨[], by simp⟩, rfl, ⟨[], by simp⟩⟩

theorem trans {u : State σ ω} (h : Ordinary s t) (k : Ordinary t u) : Ordinary s u := by
  obtain ⟨ps, hp, hps⟩ := h.posted
  obtain ⟨qs, hq, hqs⟩ := k.posted
  obtain ⟨l, hl, hld⟩ := h.log
  obtain ⟨m, hm, hmd⟩ := k.log
  obtain ⟨r, hr, hrd⟩ := h.returns
  obtain ⟨q, hq', hqd⟩ := k.returns
  refine ⟨k.fields.trans h.fields, k.async.trans h.async,
    fun a ha => (k.awaits a ha).trans (h.awaits a ha), ⟨ps ++ qs, ?_, ?_⟩, ⟨l ++ m, ?_, ?_⟩,
    k.stack.trans h.stack, ⟨r ++ q, ?_, ?_⟩⟩
  · rw [hq, hp, List.append_assoc]
  · intro p hmem
    exact (List.mem_append.mp hmem).elim (hps p) (hqs p)
  · rw [hm, hl, List.append_assoc]
  · intro hmem
    exact (List.mem_append.mp hmem).elim hld hmd
  · rw [hq', hr, List.append_assoc]
  · intro x hmem
    exact (List.mem_append.mp hmem).elim (hrd x) (hqd x)

end Ordinary

structure Moves (s t : State σ ω) : Prop where
  wired : Wired t
  ordinary : Ordinary s t

theorem Moves.refl (h : Wired s) : Moves s s := ⟨h, .refl s⟩

theorem Moves.trans {u : State σ ω} (h : Moves s t) (k : Moves t u) : Moves s u :=
  ⟨k.wired, h.ordinary.trans k.ordinary⟩

theorem Wired.moves (h : Wired s)
    (he : (t.asyncSrt, t.microtasks, t.socket, t.startedToDispose, t.disposal, t.createCalls) =
      (s.asyncSrt, s.microtasks, s.socket, s.startedToDispose, s.disposal, s.createCalls))
    (hclosed : ∀ conn ∈ t.connections, conn.isClosed = true)
    (hstack : ∃ fs, t.stack = fs ++ s.stack ∧ ∀ f ∈ fs, f.isClosing = false ∧ f ≠ .disposed)
    (hlog : ∃ l, t.log = s.log ++ l ∧ .disposed ∉ l)
    (hret : ∃ l, t.returns = s.returns ++ l ∧ ∀ x ∈ l, x ∉ refusals) : Moves s t := by
  obtain ⟨fs, hfs, hplain⟩ := hstack
  cases s
  cases t
  simp only [Prod.mk.injEq] at he
  obtain ⟨rfl, rfl, rfl, rfl, rfl, rfl⟩ := he
  refine ⟨{ h with closed := hclosed, frames := ?_ },
    ⟨rfl, rfl, fun _ _ => rfl, ⟨[], by simp⟩, hlog, ?_, hret⟩⟩
  · intro f hf
    simp only at hf hfs
    rw [hfs] at hf
    exact (List.mem_append.mp hf).elim (fun hf => (hplain f hf).1) (h.frames f)
  · simp only at hfs ⊢
    rw [hfs, List.count_append, List.count_eq_zero_of_not_mem fun hmem => (hplain _ hmem).2 rfl,
      Nat.zero_add]

theorem Await.method_of_not_owning {a : Await} {m : Method} (h : a.owning = false)
    (hm : a.method = some m) : m ≠ .createSocket ∧ m ≠ .close := by
  cases a with
  | create | disposeClose | disposeAsync | closing c caller => cases h
  | epollUWait => cases hm; decide
  | opening step => cases step <;> cases hm <;> decide
  | handling step => cases step <;> cases hm <;> decide

theorem Await.eq_create {a : Await} (h : a.method = some .createSocket) : a = .create := by
  cases a with
  | create => rfl
  | disposeClose | disposeAsync | closing c caller | epollUWait => cases h
  | opening step => cases step <;> cases h
  | handling step => cases step <;> cases h

theorem Await.eq_disposeClose {a : Await} (h : a.method = some .close)
    (hc : a.isClosing = false) : a = .disposeClose := by
  cases a with
  | disposeClose => rfl
  | closing c caller => cases hc
  | create | disposeAsync | epollUWait => cases h
  | opening step => cases step <;> cases h
  | handling step => cases step <;> cases h

theorem count_of_perm_concat {a b : Await} {l m : List Await} (h : l.Perm (m ++ [b]))
    (ha : a.owning = true) (hb : b.owning = false) : l.count a = m.count a := by
  have hne : b ≠ a := fun he => by rw [he, ha] at hb; cases hb
  rw [h.count_eq, List.count_append, List.count_singleton, beq_false_of_ne hne]
  rfl

namespace Wired

theorem moves_post (h : Wired s) (hc : Simple c) {a : Await} (hm : a.method = some c.post.method)
    (ha : a.owning = false) : Moves s (s.post c a) := by
  have hmeth := Await.method_of_not_owning ha hm
  obtain ⟨hperm, ⟨ps, hps, hall⟩, hf, hasync⟩ := post_frame h.invariant hc a
  simp only [Prod.mk.injEq] at hf
  refine ⟨h.post hc hm (Await.isClosing_of_not_owning ha)
    (fun he => by rw [he] at ha; cases ha) (fun he => absurd he hmeth.2)
    (fun he => absurd he hmeth.1), ⟨by simp [hf], hasync,
    fun b hb => count_of_perm_concat hperm hb ha, ⟨ps, hps, ?_⟩, ⟨[], by simp [hf]⟩, by simp [hf],
    ⟨[], by simp [hf]⟩⟩⟩
  intro p hp
  rw [hall p hp]
  exact hmeth

theorem moves_wake (h : Wired s) {a : Await} {r : Except Failure ReturnValue}
    (ha : a.owning = false) (ho : Origin s a r) : Moves s (s.wake a r) := by
  refine ⟨{ h with origin := ?_, waits := ?_ },
    ⟨rfl, rfl, fun b hb => count_of_perm_concat (awaits_wake s a r) hb ha,
      ⟨[], by simp [State.wake]⟩, ⟨[], by simp [State.wake]⟩, rfl, ⟨[], by simp [State.wake]⟩⟩⟩
  · intro x hx
    rcases List.mem_append.mp hx with hx | hx
    · exact h.origin x hx
    · rw [List.mem_singleton.mp hx]
      exact ho
  · intro b hb
    rcases List.mem_append.mp ((awaits_wake s a r).mem_iff.mp hb) with hb | hb
    · exact h.waits b hb
    · rw [List.mem_singleton.mp hb]
      exact Await.isClosing_of_not_owning ha

theorem moves_ret (h : Wired s) {call : Call} {r : Except Failure CallValue}
    (hr : (call, r) ∉ refusals) : Moves s (s.ret call r) :=
  h.moves rfl h.closed ⟨[], rfl, by simp⟩ ⟨[], by simp [State.ret]⟩
    ⟨[(call, r)], rfl, by simpa using hr⟩

theorem moves_reject (h : Wired s) (e : Failure) : Moves s (s.reject e) :=
  h.moves rfl h.closed ⟨[], rfl, by simp⟩ ⟨[], by simp [State.reject]⟩ ⟨[], by simp [State.reject]⟩

theorem moves_emit (h : Wired s) {e : Emission} {f : Frame} (he : e ≠ .disposed)
    (hf : f.isClosing = false ∧ f ≠ .disposed) : Moves s (s.emit e f) :=
  h.moves rfl h.closed ⟨[f], rfl, by simpa using hf⟩ ⟨[e], rfl, by simpa using he.symm⟩
    ⟨[], by simp [State.emit]⟩

theorem moves_clearTimers (h : Wired s) : Moves s s.clearTimers :=
  h.moves rfl h.closed ⟨[], rfl, by simp⟩ ⟨[], by simp [State.clearTimers]⟩
    ⟨[], by simp [State.clearTimers]⟩

end Wired

/-! ## The functions between two awaits -/

theorem simple_bind (x : Slot) (address : JSString) (port : ℤ) :
    Simple (.bind x.toValue (.string address) (.number port)) := by
  constructor <;> simp [ApiCall.earlyError, ApiCall.writeFrame, ApiCall.useTimeout, ApiCall.post]

theorem simple_connect (x : Slot) (address : JSString) (port : ℤ) :
    Simple (.connect x.toValue (.string address) (.number port)) := by
  constructor <;> simp [ApiCall.earlyError, ApiCall.writeFrame, ApiCall.useTimeout, ApiCall.post]

theorem simple_listen (x : Slot) (backlog : ℤ) : Simple (.listen x.toValue (.number backlog)) := by
  constructor <;> simp [ApiCall.earlyError, ApiCall.writeFrame, ApiCall.useTimeout, ApiCall.post]

theorem simple_accept (x : Slot) (ms : ℕ) : Simple (.accept x.toValue false ms) := by
  constructor <;> simp [ApiCall.earlyError, ApiCall.writeFrame, ApiCall.useTimeout, ApiCall.post]

theorem simple_close (x : Slot) : Simple (.close x.toValue) := by
  constructor <;> simp [ApiCall.earlyError, ApiCall.writeFrame, ApiCall.useTimeout, ApiCall.post]

theorem simple_createSocket : Simple (.createSocket .undefined) := by
  constructor <;> simp [ApiCall.earlyError, ApiCall.writeFrame, ApiCall.useTimeout, ApiCall.post]

theorem simple_getSockState (n : ℤ) : Simple (.getSockState (.number n)) := by
  constructor <;> simp [ApiCall.earlyError, ApiCall.writeFrame, ApiCall.useTimeout, ApiCall.post]

theorem simple_epollCreate : Simple .epollCreate := by
  constructor <;> simp [ApiCall.earlyError, ApiCall.writeFrame, ApiCall.useTimeout, ApiCall.post]

theorem simple_epollAddUsock (x y : Slot) (n : ℤ) :
    Simple (.epollAddUsock x.toValue y.toValue (.number n)) := by
  constructor <;> simp [ApiCall.earlyError, ApiCall.writeFrame, ApiCall.useTimeout, ApiCall.post]

theorem simple_epollUWait (x : Slot) (n : ℤ) : Simple (.epollUWait x.toValue (.number n)) := by
  constructor <;> simp [ApiCall.earlyError, ApiCall.writeFrame, ApiCall.useTimeout, ApiCall.post]

namespace Wired

theorem moves_unlessFailed (h : Wired s) (v : ReturnValue) (e : SocketError)
    (ht : Moves s t) : Moves s (s.unlessFailed v e t) := by
  unfold State.unlessFailed
  split
  · exact h.moves_ret (by simp [refusals])
  · exact ht

theorem moves_pollEvents (h : Wired s) : Moves s s.pollEvents := by
  unfold State.pollEvents
  split
  · exact h.moves_clearTimers
  · exact h.moves_post (simple_epollUWait s.epid _) rfl rfl

theorem moves_openSocket (h : Wired s) (p : Config) : Moves s (s.openSocket p) := by
  unfold State.openSocket
  split
  · exact h.moves_ret (by simp [refusals])
  split
  · exact h.moves_ret (by simp [refusals])
  unfold State.doOpen
  split
  · exact h.moves_post (simple_bind s.socket _ _) rfl rfl
  · split
    · exact h.moves_ret (by simp [refusals])
    · exact h.moves_post (simple_connect s.socket _ _) rfl rfl

theorem moves_resumeOpen (h : Wired s) (v : ReturnValue) (step : OpenStep) :
    Moves s (s.resumeOpen v step) := by
  cases step with
  | bind => exact h.moves_unlessFailed v _ (h.moves_post (simple_listen s.socket _) rfl rfl)
  | listen => exact h.moves_unlessFailed v _ (h.moves_post simple_epollCreate rfl rfl)
  | epollCreate =>
    have hset : Moves s { s with epid := Slot.ofReply v } :=
      h.moves rfl h.closed ⟨[], rfl, by simp⟩ ⟨[], by simp⟩ ⟨[], by simp⟩
    exact h.moves_unlessFailed v _
      (hset.trans (hset.wired.moves_emit (by simp) (by simp [Frame.isClosing])))
  | epollAddUsock =>
    have hpoll := h.moves_pollEvents
    exact hpoll.trans (hpoll.wired.moves_ret (by simp [refusals]))
  | connect => exact h.moves_unlessFailed v _ (h.moves_ret (by simp [refusals]))

theorem moves_closeReturn (h : Wired s) (c : ℕ) (r : Except Failure ReturnValue)
    (caller : CloseCaller) : Moves s (s.closeReturn c r caller) := by
  cases caller with
  | user => exact h.moves_ret (by simp [refusals])
  | handler fd => exact h.moves_wake rfl (Or.inl rfl)

/-- Closing a connection that is closed does nothing but answer. -/
theorem moves_closeConnection (h : Wired s) (c : ℕ) (caller : CloseCaller) :
    Moves s (s.closeConnection c caller) := by
  have hcall : Moves s { s with closeCalls := s.closeCalls ++ [c] } :=
    h.moves rfl h.closed ⟨[], rfl, by simp⟩ ⟨[], by simp⟩ ⟨[], by simp⟩
  simp only [State.closeConnection]
  split
  · exact hcall
  · rename_i conn hconn
    rw [if_pos (h.closed conn (List.mem_of_getElem? hconn))]
    exact hcall.trans (hcall.wired.moves_closeReturn c _ caller)

theorem moves_handleEvents (h : Wired s) (events : List SRTEpollResult) :
    Moves s (events.foldl State.handleEvent s) := by
  induction events generalizing s with
  | nil => exact .refl h
  | cons event events ih =>
    have hpost : Moves s (s.handleEvent event) := h.moves_post (simple_getSockState _) rfl rfl
    exact hpost.trans (ih hpost.wired)

theorem moves_onEvents (h : Wired s) (v : ReturnValue) : Moves s (s.onEvents v) := by
  unfold State.onEvents
  split
  · rename_i events
    have hall := h.moves_handleEvents events
    exact hall.trans (hall.wired.moves rfl hall.wired.closed ⟨[], rfl, by simp⟩ ⟨[], by simp⟩
      ⟨[], by simp⟩)
  · exact h.moves_reject _

theorem moves_onStatus (h : Wired s) (event : SRTEpollResult) (status : ReturnValue) :
    Moves s (s.onStatus event status) := by
  unfold State.onStatus
  split
  · split
    · exact h.moves_post (simple_accept s.socket _) rfl rfl
    · exact .refl h
  split
  · split
    · exact h.moves_closeConnection _ _
    · exact .refl h
  · split
    · exact h.moves_emit (by simp) (by simp [Frame.isClosing])
    · exact h.moves_reject _

theorem moves_connect (h : Wired s) (fd : Slot) : Moves s (s.connect fd) := by
  have hclosed : ∀ conn ∈ s.connections ++ [SRTServerConnection.construct () fd.toValue],
      conn.isClosed = true := by
    intro conn hconn
    rcases List.mem_append.mp hconn with hconn | hconn
    · exact h.closed conn hconn
    · rw [List.mem_singleton.mp hconn]
      rfl
  exact h.moves rfl hclosed ⟨[.connection], rfl, by simp [Frame.isClosing]⟩ ⟨[_], rfl, by simp⟩
    ⟨[], by simp [State.connect, State.emit, State.setConnection]⟩

theorem moves_resumeHandle (h : Wired s) (v : ReturnValue) (step : HandleStep) :
    Moves s (s.resumeHandle v step) := by
  cases step with
  | getSockState event => exact h.moves_onStatus event v
  | accept => exact h.moves_post (simple_epollAddUsock s.epid (.ofReply v) _) rfl rfl
  | epollAddUsock fd => exact h.moves_connect fd
  | close fd => exact h.moves_emit (by simp) (by simp [Frame.isClosing])

theorem moves_resume (h : Wired s) {a : Await} (ha : a.owning = false)
    (r : Except Failure ReturnValue) : Moves s (s.resume a r) := by
  cases a with
  | create | disposeClose | disposeAsync | closing c caller => cases ha
  | opening step =>
    cases r with
    | ok v => exact h.moves_resumeOpen v step
    | error e => exact h.moves_ret (by simp [refusals])
  | epollUWait =>
    cases r with
    | ok v => exact h.moves_onEvents v
    | error e => exact h.moves_reject e
  | handling step =>
    cases r with
    | ok v => exact h.moves_resumeHandle v step
    | error e => exact h.moves_reject e

theorem moves_afterListeners (h : Wired s) {f : Frame} (hc : f.isClosing = false)
    (hd : f ≠ .disposed) : Moves s (s.afterListeners f) := by
  cases f with
  | created => exact h.moves_ret (by simp [refusals])
  | opened => exact h.moves_post (simple_epollAddUsock s.epid s.socket _) rfl rfl
  | connection | disconnection => exact .refl h
  | disposed => exact absurd rfl hd
  | data c =>
    have hclosed : ∀ conn ∈ s.connections.modify c SRTServerConnection.afterData,
        conn.isClosed = true := by
      intro conn hconn
      obtain ⟨i, hi⟩ := List.getElem?_of_mem hconn
      rw [List.getElem?_modify] at hi
      obtain ⟨conn', hconn', rfl⟩ := Option.map_eq_some_iff.mp hi
      have := h.closed conn' (List.mem_of_getElem? hconn')
      split
      · unfold SRTServerConnection.afterData
        split <;> exact this
      · exact this
    exact h.moves rfl hclosed ⟨[], rfl, by simp⟩ ⟨[], by simp [State.afterListeners]⟩
      ⟨[], by simp [State.afterListeners]⟩
  | closing c caller | closed c caller v => cases hc

theorem moves_listenerThrew (h : Wired s) {f : Frame} (hc : f.isClosing = false)
    (hd : f ≠ .disposed) : Moves s (s.listenerThrew f) := by
  cases f with
  | created | opened => exact h.moves_ret (by simp [refusals])
  | disposed => exact absurd rfl hd
  | connection | disconnection | data c => exact h.moves_reject _
  | closing c caller | closed c caller v => cases hc

end Wired

end SocketAsync
