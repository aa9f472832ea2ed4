import NodeSrt.ServerListening

/-! # What prompts a call

A function of the object runs because the user calls it, because what it awaits has
settled, because the listeners of its event have returned, or because the timer fires. The
calls it makes, what it returns and what it throws are listed by what prompts it. -/
namespace SocketAsync

open AsyncValues
open TransitionSystem
open AsyncApi
open NativeSrt
open ServerConnection (SRTServerConnection)

variable {σ ω : Type*} {s t u : State σ ω}

/-! ## Prompts -/

inductive Prompt where
  | user (call : Call)
  | await (a : Await) (r : Except Failure ReturnValue)
  | listeners (f : Frame)
  | timer

def Event.call : Event ω → Option Call
  | .create => some .create
  | .opening => some .opening
  | .dispose => some .dispose
  | .closeConnection c => some (.close c)
  | _ => none

/-- The state in which the function runs that an event starts, its prompt taken out. -/
inductive Prompted (s : State σ ω) : Event ω → Prompt → State σ ω → Prop
  | user {e : Event ω} {call : Call} (he : e.call = some call) : Prompted s e (.user call) s
  | await {a : Await} {r : Except Failure ReturnValue}
      {rest : List (Await × Except Failure ReturnValue)} (hs : s.stack = [])
      (hq : s.microtasks = (a, r) :: rest) :
      Prompted s .resume (.await a r) { s with microtasks := rest }
  | listeners {threw : Bool} {f : Frame} {rest : List Frame} (hs : s.stack = f :: rest) :
      Prompted s (.listenerReturn threw) (.listeners f) { s with stack := rest }
  | timer (hi : Idle s) (ht : s.pollEventsTimer = true) :
      Prompted s .pollTimer .timer { s with pollEventsTimer := false }

theorem Prompted.same {e : Event ω} {x : Prompt} (hx : Prompted s e x u) :
    (u.asyncSrt, u.socket, u.startedToDispose, u.epid, u.connections, u.connectionMap, u.log,
      u.returns, u.unhandled) =
    (s.asyncSrt, s.socket, s.startedToDispose, s.epid, s.connections, s.connectionMap, s.log,
      s.returns, s.unhandled) := by
  cases hx <;> rfl

theorem Prompted.microtasks {e : Event ω} {x : Prompt} (hx : Prompted s e x u) :
    ∀ y ∈ u.microtasks, y ∈ s.microtasks := by
  cases hx with
  | await hs hq => exact fun y hy => hq ▸ List.mem_cons_of_mem _ hy
  | user | listeners | timer => exact fun y hy => hy

theorem Prompted.stack {e : Event ω} {x : Prompt} (hx : Prompted s e x u) :
    ∀ f ∈ u.stack, f ∈ s.stack := by
  cases hx with
  | listeners hs => exact fun f hf => hs ▸ List.mem_cons_of_mem _ hf
  | user | await | timer => exact fun f hf => hf

/-! ## Calls -/

def bindPost (p : Config) (x : Slot) : AsyncSRTWorkerPost :=
  (ApiCall.bind x.toValue (.string p.address) (.number p.port)).post

def connectPost (p : Config) (x : Slot) : AsyncSRTWorkerPost :=
  (ApiCall.connect x.toValue (.string p.address) (.number p.port)).post

def pollPost (epid : Slot) : AsyncSRTWorkerPost :=
  (ApiCall.epollUWait epid.toValue (.number State.EPOLLUWAIT_TIMEOUT_MS)).post

def statusPost (fd : ℤ) : AsyncSRTWorkerPost := (ApiCall.getSockState (.number fd)).post

def acceptPost (x : Slot) : AsyncSRTWorkerPost :=
  (ApiCall.accept x.toValue false DEFAULT_PROMISE_TIMEOUT_MS).post

variable {p : Config} {x : Prompt}

/-- The calls a function makes of the worker, and what it awaits each of them for. -/
inductive Calls (p : Config) (s : State σ ω) : Prompt → Await → AsyncSRTWorkerPost → Prop
  | bind (hp : p.kind = .server) (hs : s.socket ≠ .null) (hd : s.startedToDispose = false) :
      Calls p s (.user .opening) (.opening .bind) (bindPost p s.socket)
  | connect (hp : p.kind = .client) (hs : s.socket ≠ .null) (hd : s.startedToDispose = false) :
      Calls p s (.user .opening) (.opening .connect) (connectPost p s.socket)
  | listen {v : ReturnValue} (hv : v ≠ .number SRT_ERROR) :
      Calls p s (.await (.opening .bind) (.ok v)) (.opening .listen) (listenPost s.socket)
  | epollCreate {v : ReturnValue} (hv : v ≠ .number SRT_ERROR) :
      Calls p s (.await (.opening .listen) (.ok v)) (.opening .epollCreate) epollCreatePost
  | subscribe :
      Calls p s (.listeners .opened) (.opening .epollAddUsock) (subscribePost s.epid s.socket)
  | poll {v : ReturnValue} (hd : s.asyncSrt.async.startedToDispose = false) :
      Calls p s (.await (.opening .epollAddUsock) (.ok v)) .epollUWait (pollPost s.epid)
  | pollAgain (hd : s.asyncSrt.async.startedToDispose = false) :
      Calls p s .timer .epollUWait (pollPost s.epid)
  | status {events : List SRTEpollResult} {event : SRTEpollResult} (he : event ∈ events) :
      Calls p s (.await .epollUWait (.ok (.epollResults events)))
        (.handling (.getSockState event)) (statusPost event.socket)
  | accept {event : SRTEpollResult} (hs : s.socket = .number event.socket) :
      Calls p s (.await (.handling (.getSockState event)) (.ok (.number SRTS_LISTENING)))
        (.handling .accept) (acceptPost s.socket)
  | add {v : ReturnValue} :
      Calls p s (.await (.handling .accept) (.ok v)) (.handling (.epollAddUsock (.ofReply v)))
        (subscribePost s.epid (.ofReply v))

/-- How an await goes on whose call was not sent. -/
def Refused (s : State σ ω) (r : Except Failure ReturnValue) : Prop :=
  (∃ e, r = .error (.async e)) ∨
    r = .ok .undefined ∧ s.asyncSrt.async.startedToDispose = true

def Closes (x : Prompt) (a : Await) : Prop :=
  ∃ event v fd, x = .await (.handling (.getSockState event)) (.ok v) ∧ a = .handling (.close fd)

def SetsEpid (x : Prompt) (epid : Slot) : Prop :=
  ∃ v, v ≠ .number SRT_ERROR ∧ x = .await (.opening .epollCreate) (.ok v) ∧ epid = .ofReply v

/-- How calls of the user are answered. -/
inductive Returns (s : State σ ω) : Prompt → Call × Except Failure CallValue → Prop
  | fails (x : Prompt) (call : Call) (e : Failure) : Returns s x (call, .error e)
  | creates : Returns s (.listeners .created) (.create, .ok .this)
  | opens {v : ReturnValue} :
      Returns s (.await (.opening .epollAddUsock) (.ok v)) (.opening, .ok .this)
  | connects {v : ReturnValue} (hv : v ≠ .number SRT_ERROR) :
      Returns s (.await (.opening .connect) (.ok v)) (.opening, .ok .this)
  | createsNull (hs : s.socket = .null) (hd : s.startedToDispose = true) :
      Returns s (.user .create) (.create, .ok (.value .null))
  | opensNull (hs : s.socket ≠ .null) (hd : s.startedToDispose = true) :
      Returns s (.user .opening) (.opening, .ok (.value .null))
  | disposes (x : Prompt) (r : Except Failure CallValue) : Returns s x (.dispose, r)
  | closes (x : Prompt) (c : ℕ) (r : Except Failure CallValue) : Returns s x (.close c, r)

/-- What is thrown in a function that nobody awaits. -/
inductive Raises (s : State σ ω) : Prompt → Failure → Prop
  | awaited (a : Await) (e : Failure) : Raises s (.await a (.error e)) e
  | listener (f : Frame) : Raises s (.listeners f) .listener
  | typeError (v : ReturnValue) : Raises s (.await .epollUWait (.ok v)) .typeError
  | notInMap {event : SRTEpollResult} {v : ReturnValue} (hs : s.socket ≠ .number event.socket)
      (hl : s.lookup (.number event.socket) = none) :
      Raises s (.await (.handling (.getSockState event)) (.ok v))
        (.socket (.notInMap event.socket))

def Frame.serves : Frame → Bool
  | .connection | .disconnection | .data _ => true
  | _ => false

/-- What is emitted in a function, the events around `create` and `dispose` apart. -/
inductive Emits : Prompt → Emission → Prop
  | opened {v : ReturnValue} (hv : v ≠ .number SRT_ERROR) :
      Emits (.await (.opening .epollCreate) (.ok v)) .opened
  | connection {fd : Slot} {v : ReturnValue} (c : ℕ) :
      Emits (.await (.handling (.epollAddUsock fd)) (.ok v)) (.connection c)
  | disconnection (x : Prompt) (fd : ℤ) : Emits x (.disconnection fd)
  | ofConnection (x : Prompt) (c : ℕ) (e : ServerConnection.Emission) :
      Emits x (.ofConnection c e)

/-- The calls are sent, in order, or each is refused at once. -/
structure Sends (p : Config) (s : State σ ω) (x : Prompt) (t : State σ ω) : Prop where
  fields : (t.socket, t.startedToDispose, t.asyncSrt.native, t.asyncSrt.async.executed,
      t.asyncSrt.async.startedToDispose, t.asyncSrt.async.worker, t.asyncSrt.async.answered,
      t.asyncSrt.async.disposing) =
    (s.socket, s.startedToDispose, s.asyncSrt.native, s.asyncSrt.async.executed,
      s.asyncSrt.async.startedToDispose, s.asyncSrt.async.worker, s.asyncSrt.async.answered,
      s.asyncSrt.async.disposing)
  calls : ∃ qs ms, t.asyncSrt.async.posted = s.asyncSrt.async.posted ++ qs ∧
    t.queue = s.queue ++ qs.map (fun q => q.1.waiter) ∧ t.microtasks = s.microtasks ++ ms ∧
    (∀ q ∈ qs, Calls p s x q.1.waiter q.2 ∧
      s.asyncSrt.async.startedToDispose = false ∧ s.asyncSrt.async.worker = true) ∧
    ∀ y ∈ ms, Closes x y.1 ∧ y.2 = .ok .null ∨ (∃ post, Calls p s x y.1 post) ∧ Refused s y.2

/-- All that a function does until it awaits, emits or ends. -/
structure Turn (p : Config) (s : State σ ω) (x : Prompt) (t : State σ ω) : Prop where
  sends : Sends p s x t
  epid : t.epid = s.epid ∨ SetsEpid x t.epid
  stack : ∀ f ∈ t.stack, f ∈ s.stack ∨
    (∀ call, x ≠ .user call) ∧ (f.serves = true ∨ f = .opened ∧ SetsEpid x t.epid)
  log : ∀ e ∈ t.log, e ∈ s.log ∨ Emits x e
  timer : t.pollEventsTimer = true → s.pollEventsTimer = true ∨
    ∃ events, x = .await .epollUWait (.ok (.epollResults events))
  returns : ∀ y ∈ t.returns, y ∈ s.returns ∨ Returns s x y
  unhandled : ∀ e ∈ t.unhandled, e ∈ s.unhandled ∨ Raises s x e

theorem Calls.congr {a : Await} {post : AsyncSRTWorkerPost} (h : Calls p s x a post)
    (he : (t.socket, t.epid, t.startedToDispose, t.asyncSrt.async.startedToDispose) =
      (s.socket, s.epid, s.startedToDispose, s.asyncSrt.async.startedToDispose)) :
    Calls p t x a post := by
  simp only [Prod.mk.injEq] at he
  obtain ⟨hsock, hepid, hdisp, hstart⟩ := he
  cases h with
  | bind hp hs hd => exact hsock ▸ .bind hp (hsock ▸ hs) (hdisp ▸ hd)
  | connect hp hs hd => exact hsock ▸ .connect hp (hsock ▸ hs) (hdisp ▸ hd)
  | listen hv => exact hsock ▸ .listen hv
  | epollCreate hv => exact .epollCreate hv
  | subscribe => exact hsock ▸ hepid ▸ .subscribe
  | poll hd => exact hepid ▸ .poll (hstart ▸ hd)
  | pollAgain hd => exact hepid ▸ .pollAgain (hstart ▸ hd)
  | status he => exact .status he
  | accept hs => exact hsock ▸ .accept (hsock ▸ hs)
  | add => exact hepid ▸ .add

theorem Calls.subscribes {a : Await} {post : AsyncSRTWorkerPost} (h : Calls p s x a post)
    (hm : post.method = .epollAddUsock) :
    ∃ fd, a.method = some .epollAddUsock ∧ post = subscribePost s.epid fd := by
  cases h with
  | subscribe => exact ⟨_, rfl, rfl⟩
  | add => exact ⟨_, rfl, rfl⟩
  | bind | connect | listen | epollCreate | poll | pollAgain | status | accept => cases hm

namespace Sends

theorem of_eq (he : (t.asyncSrt, t.microtasks, t.socket, t.startedToDispose) =
    (s.asyncSrt, s.microtasks, s.socket, s.startedToDispose)) : Sends p s x t := by
  cases s
  cases t
  simp only [Prod.mk.injEq] at he
  obtain ⟨rfl, rfl, rfl, rfl⟩ := he
  refine ⟨rfl, [], [], (List.append_nil _).symm, (List.append_nil _).symm,
    (List.append_nil _).symm, ?_, ?_⟩ <;> simp

theorem trans (h : Sends p s x u) (he : u.epid = s.epid) (k : Sends p u x t) : Sends p s x t := by
  obtain ⟨hf, qs, ms, hp, hq, hm, hqs, hms⟩ := h
  obtain ⟨kf, qs', ms', kp, kq, km, kqs, kms⟩ := k
  have hfu := hf
  simp only [Prod.mk.injEq] at hfu
  obtain ⟨hsock, hdisp, -, -, hstart, hwork, -⟩ := hfu
  have hcalls : ∀ {a post}, Calls p u x a post → Calls p s x a post := fun hc =>
    hc.congr (by rw [hsock, hdisp, hstart, he])
  refine ⟨kf.trans hf, qs ++ qs', ms ++ ms', ?_, ?_, ?_, ?_, ?_⟩
  · rw [kp, hp, List.append_assoc]
  · rw [kq, hq, List.map_append, List.append_assoc]
  · rw [km, hm, List.append_assoc]
  · intro q hmem
    rcases List.mem_append.mp hmem with hmem | hmem
    · exact hqs q hmem
    · obtain ⟨hc, hd, hw⟩ := kqs q hmem
      exact ⟨hcalls hc, hstart ▸ hd, hwork ▸ hw⟩
  · intro y hmem
    rcases List.mem_append.mp hmem with hmem | hmem
    · exact hms y hmem
    · refine (kms y hmem).imp_right fun ⟨⟨post, hc⟩, hr⟩ => ⟨⟨post, hcalls hc⟩, ?_⟩
      exact hr.imp_right fun hr => ⟨hr.1, hstart ▸ hr.2⟩

end Sends

theorem post_refused {c : ApiCall} (hc : Simple c) (h : ¬ ReachesPost s.asyncSrt.async c)
    (a : Await) : ∃ r, s.post c a = s.wake a r ∧ Refused s r := by
  obtain ⟨n, e⟩ := apiCall_of_early h false a
  have hs : s.setAsync s.asyncSrt.async = s := rfl
  simp only [State.post, e, hc.unrecorded, recordWrite_nil, hs, AsyncSRT.earlyReturn, hc.early]
  by_cases hw : s.asyncSrt.async.worker = false
  · simp only [if_pos hw]
    exact ⟨_, rfl, Or.inl ⟨_, rfl⟩⟩
  · by_cases hd : s.asyncSrt.async.startedToDispose = true
    · simp only [if_neg hw, if_pos hd]
      exact ⟨_, rfl, Or.inr ⟨rfl, hd⟩⟩
    · simp only [if_neg hw, if_neg hd]
      exact ⟨_, rfl, Or.inl ⟨_, rfl⟩⟩

/-- A call is sent, or refused at once, and nothing else changes. -/
theorem Wired.post_sends (h : Wired s) {c : ApiCall} (hc : Simple c) (a : Await) :
    ((s.post c a).socket, (s.post c a).startedToDispose, (s.post c a).asyncSrt.native,
      (s.post c a).asyncSrt.async.executed, (s.post c a).asyncSrt.async.startedToDispose,
      (s.post c a).asyncSrt.async.worker, (s.post c a).asyncSrt.async.answered,
      (s.post c a).asyncSrt.async.disposing) =
    (s.socket, s.startedToDispose, s.asyncSrt.native, s.asyncSrt.async.executed,
      s.asyncSrt.async.startedToDispose, s.asyncSrt.async.worker, s.asyncSrt.async.answered,
      s.asyncSrt.async.disposing) ∧
    ((s.post c a).stack, (s.post c a).log, (s.post c a).pollEventsTimer, (s.post c a).returns,
      (s.post c a).unhandled, (s.post c a).epid) =
    (s.stack, s.log, s.pollEventsTimer, s.returns, s.unhandled, s.epid) ∧
    ∃ qs ms, (s.post c a).asyncSrt.async.posted = s.asyncSrt.async.posted ++ qs ∧
      (s.post c a).queue = s.queue ++ qs.map (fun q => q.1.waiter) ∧
      (s.post c a).microtasks = s.microtasks ++ ms ∧
      (∀ q ∈ qs, q.1.waiter = a ∧ q.2 = c.post ∧ s.asyncSrt.async.startedToDispose = false ∧
        s.asyncSrt.async.worker = true) ∧
      ∀ y ∈ ms, y.1 = a ∧ Refused s y.2 := by
  rcases hc.accepts_or_refused s.asyncSrt.async with hacc | href
  · rw [post_of_accepts h.invariant hc hacc]
    refine ⟨rfl, rfl, [_], [], rfl, ?_, (List.append_nil _).symm, ?_, by simp⟩
    · simp [State.queue, State.setAsync, AsyncSRT.accept, AsyncSRT.prepare]
    · intro q hq
      rw [List.mem_singleton.mp hq]
      exact ⟨rfl, rfl, hacc.1.2.2.1, hacc.1.2.1⟩
  · obtain ⟨r, e, hr⟩ := post_refused hc href a
    rw [e]
    refine ⟨rfl, rfl, [], [(a, r)], (List.append_nil _).symm, (List.append_nil _).symm, rfl,
      by simp, ?_⟩
    intro y hy
    rw [List.mem_singleton.mp hy]
    exact ⟨rfl, hr⟩

theorem Wired.closing (h : Wired s) (timer : Bool) : Wired { s with
    pollEventsTimer := timer, startedToDispose := true, disposal := .closing } :=
  h.frame rfl (fun _ hx => hx) h.frames (fun _ => rfl)

theorem post_same (s : State σ ω) (c : ApiCall) (a : Await) :
    ((s.post c a).epid, (s.post c a).connectionMap, (s.post c a).connections) =
      (s.epid, s.connectionMap, s.connections) := by
  unfold State.post
  dsimp only
  split
  · unfold State.wakeSettled
    split <;> rfl
  all_goals rfl

theorem pollEvents_same (s : State σ ω) :
    (s.pollEvents.epid, s.pollEvents.connectionMap, s.pollEvents.connections) =
      (s.epid, s.connectionMap, s.connections) := by
  unfold State.pollEvents
  split
  · rfl
  · exact post_same _ _ _

theorem handleEvents_same (s : State σ ω) (events : List SRTEpollResult) :
    ((events.foldl State.handleEvent s).epid, (events.foldl State.handleEvent s).connectionMap,
      (events.foldl State.handleEvent s).connections) =
      (s.epid, s.connectionMap, s.connections) := by
  induction events generalizing s with
  | nil => rfl
  | cons event events ih => exact (ih (s.handleEvent event)).trans (post_same _ _ _)

namespace Turn

theorem refl (p : Config) (s : State σ ω) (x : Prompt) : Turn p s x s where
  sends := .of_eq rfl
  epid := Or.inl rfl
  stack _ := Or.inl
  log _ := Or.inl
  timer := Or.inl
  returns _ := Or.inl
  unhandled _ := Or.inl

theorem trans (h : Turn p s x u)
    (he : (u.epid, u.connectionMap, t.epid) = (s.epid, s.connectionMap, s.epid))
    (k : Turn p u x t) : Turn p s x t := by
  have hf := h.sends.fields
  simp only [Prod.mk.injEq] at hf he
  obtain ⟨hsock, hstart, -⟩ := hf
  obtain ⟨hepid, hmap, hepid'⟩ := he
  refine ⟨h.sends.trans hepid k.sends, Or.inl hepid', fun f hf => ?_, fun e hm => ?_,
    fun ht => ?_, fun y hy => ?_, fun e hm => ?_⟩
  · refine (k.stack f hf).elim (fun hf => ?_) Or.inr
    rw [hepid', ← hepid]
    exact h.stack f hf
  · exact (k.log e hm).elim (h.log e) Or.inr
  · exact (k.timer ht).elim h.timer Or.inr
  · refine (k.returns y hy).elim (h.returns y) fun hr => Or.inr ?_
    cases hr with
    | fails x call e => exact .fails x call e
    | creates => exact .creates
    | opens => exact .opens
    | connects hv => exact .connects hv
    | createsNull hs hd => exact .createsNull (hsock ▸ hs) (hstart ▸ hd)
    | opensNull hs hd => exact .opensNull (hsock ▸ hs) (hstart ▸ hd)
    | disposes x r => exact .disposes x r
    | closes x c r => exact .closes x c r
  · refine (k.unhandled e hm).elim (h.unhandled e) fun hr => Or.inr ?_
    cases hr with
    | awaited a e => exact .awaited a e
    | listener f => exact .listener f
    | typeError v => exact .typeError v
    | notInMap hs hl =>
      refine .notInMap (hsock ▸ hs) ?_
      rwa [State.lookup, ← hmap]

/-! ## Parts of functions -/

theorem post (h : Wired s) {c : ApiCall} (hc : Simple c) {a : Await}
    (hcall : Calls p s x a c.post) : Turn p s x (s.post c a) := by
  obtain ⟨hf, he, qs, ms, hp, hq, hm, hqs, hms⟩ := h.post_sends hc a
  simp only [Prod.mk.injEq] at hf he
  obtain ⟨hstack, hlog, htimer, hret, hun, hepid⟩ := he
  refine ⟨⟨by simp [hf], qs, ms, hp, hq, hm, fun q hq => ?_, fun y hy => ?_⟩, Or.inl hepid,
    fun f hf => Or.inl (hstack ▸ hf), fun e hm => Or.inl (hlog ▸ hm),
    fun ht => Or.inl (htimer ▸ ht), fun y hy => Or.inl (hret ▸ hy), fun e hm => Or.inl (hun ▸ hm)⟩
  · obtain ⟨hw, hpost, hopen⟩ := hqs q hq
    rw [hw, hpost]
    exact ⟨hcall, hopen⟩
  · obtain ⟨ha, hr⟩ := hms y hy
    rw [ha]
    exact Or.inr ⟨⟨_, hcall⟩, hr⟩

theorem ret (s : State σ ω) {y : Call × Except Failure CallValue} (hy : Returns s x y) :
    Turn p s x (s.ret y.1 y.2) := by
  refine { refl p s x with sends := .of_eq rfl, returns := fun z hz => ?_ }
  rcases List.mem_append.mp hz with hz | hz
  · exact Or.inl hz
  · exact Or.inr (List.mem_singleton.mp hz ▸ hy)

theorem reject (s : State σ ω) {e : Failure} (he : Raises s x e) : Turn p s x (s.reject e) := by
  refine { refl p s x with sends := .of_eq rfl, unhandled := fun e' hm => ?_ }
  rcases List.mem_append.mp hm with hm | hm
  · exact Or.inl hm
  · exact Or.inr (List.mem_singleton.mp hm ▸ he)

theorem emit (s : State σ ω) (hx : ∀ call, x ≠ .user call) {e : Emission} {f : Frame}
    (he : Emits x e) (hf : f.serves = true) : Turn p s x (s.emit e f) := by
  refine { refl p s x with
      sends := .of_eq rfl
      stack := fun g hg => ?_
      log := fun e' hm => ?_ }
  · rcases List.mem_cons.mp hg with rfl | hg
    · exact Or.inr ⟨hx, Or.inl hf⟩
    · exact Or.inl hg
  · rcases List.mem_append.mp hm with hm | hm
    · exact Or.inl hm
    · exact Or.inr (List.mem_singleton.mp hm ▸ he)

theorem pollEvents (h : Wired s) (hcall : s.asyncSrt.async.startedToDispose = false →
    Calls p s x .epollUWait (pollPost s.epid)) : Turn p s x s.pollEvents := by
  unfold State.pollEvents
  split
  · exact { refl p s x with sends := .of_eq rfl, timer := fun ht => by cases ht }
  · rename_i hd
    exact post h (simple_epollUWait s.epid _) (hcall (by simpa using fun he => hd (Or.inr he)))

theorem unlessFailed {v : ReturnValue} {e : SocketError}
    (ht : v ≠ .number SRT_ERROR → Turn p s x t) : Turn p s x (s.unlessFailed v e t) := by
  unfold State.unlessFailed
  split
  · exact ret s (.fails x .opening _)
  · exact ht ‹_›

theorem openSocket (h : Wired s) : Turn p s (.user .opening) (s.openSocket p) := by
  unfold State.openSocket
  split
  · exact ret s (.fails _ _ _)
  rename_i hs
  split
  · exact ret s (.opensNull hs ‹_›)
  rename_i hd
  have hd : s.startedToDispose = false := by simpa using hd
  unfold State.doOpen
  split
  · exact post h (simple_bind s.socket _ _) (.bind ‹_› hs hd)
  · split
    · exact ret s (.fails _ _ _)
    · exact post h (simple_connect s.socket _ _) (.connect ‹_› hs hd)

theorem resumeOpen (h : Wired s) (v : ReturnValue) (step : OpenStep) :
    Turn p s (.await (.opening step) (.ok v)) (s.resumeOpen v step) := by
  cases step with
  | bind => exact unlessFailed fun hv => post h (simple_listen s.socket _) (.listen hv)
  | listen => exact unlessFailed fun hv => post h simple_epollCreate (.epollCreate hv)
  | epollCreate =>
    refine unlessFailed fun hv => ?_
    have hset : SetsEpid (.await (.opening .epollCreate) (.ok v)) (.ofReply v) := ⟨v, hv, rfl, rfl⟩
    refine { refl p s _ with
        sends := .of_eq rfl
        epid := Or.inr hset
        stack := fun f hf => ?_
        log := fun e hm => ?_ }
    · exact (List.mem_cons.mp hf).symm.imp id fun hf => ⟨by simp, Or.inr ⟨hf, hset⟩⟩
    · refine (List.mem_append.mp hm).imp id fun hm => ?_
      rw [List.mem_singleton.mp hm]
      exact .opened hv
  | epollAddUsock =>
    have hsame := pollEvents_same s
    simp only [Prod.mk.injEq] at hsame
    have hpoll : Turn p s (.await (.opening .epollAddUsock) (.ok v)) s.pollEvents :=
      pollEvents h fun hd => .poll hd
    exact hpoll.trans (Prod.ext hsame.1 (Prod.ext hsame.2.1 hsame.1)) (ret _ .opens)
  | connect => exact unlessFailed fun hv => ret s (.connects hv)

theorem closeConnection (h : Wired s) (c : ℕ) (caller : CloseCaller)
    (hx : ∀ fd, caller = .handler fd → Closes x (.handling (.close fd))) :
    Turn p s x (s.closeConnection c caller) := by
  have hcall : Turn p s x { s with closeCalls := s.closeCalls ++ [c] } :=
    { refl p s x with sends := .of_eq rfl }
  simp only [State.closeConnection]
  split
  · exact hcall
  · rename_i conn hconn
    rw [if_pos (h.closed conn (List.mem_of_getElem? hconn))]
    cases caller with
    | user => exact hcall.trans rfl (ret _ (.closes x c _))
    | handler fd =>
      refine { refl p s x with sends := ⟨rfl, [], [_], ?_, ?_, rfl, by simp, ?_⟩ }
      · exact (List.append_nil _).symm
      · exact (List.append_nil _).symm
      · intro y hy
        rw [List.mem_singleton.mp hy]
        exact Or.inl ⟨hx fd rfl, rfl⟩

theorem handleEvents (h : Wired s) {all events : List SRTEpollResult}
    (hsub : ∀ event ∈ events, event ∈ all) :
    Turn p s (.await .epollUWait (.ok (.epollResults all))) (events.foldl State.handleEvent s) := by
  induction events generalizing s with
  | nil => exact refl p s _
  | cons event events ih =>
    have hpost : Moves s (s.handleEvent event) := h.moves_post (simple_getSockState _) rfl rfl
    have hfirst : Turn p s (.await .epollUWait (.ok (.epollResults all))) (s.handleEvent event) :=
      post h (simple_getSockState _) (.status (hsub event List.mem_cons_self))
    have hsame := post_same s (.getSockState (.number event.socket))
      (.handling (.getSockState event))
    have hall := handleEvents_same s (event :: events)
    simp only [Prod.mk.injEq] at hsame hall
    refine hfirst.trans ?_ (ih hpost.wired fun e he => hsub e (List.mem_cons_of_mem _ he))
    exact Prod.ext hsame.1 (Prod.ext hsame.2.1 hall.1)

theorem onEvents (h : Wired s) (v : ReturnValue) :
    Turn p s (.await .epollUWait (.ok v)) (s.onEvents v) := by
  unfold State.onEvents
  split
  · rename_i events
    have hall := handleEvents (p := p) h fun (event : SRTEpollResult) (he : event ∈ events) => he
    have hsame := handleEvents_same s events
    simp only [Prod.mk.injEq] at hsame
    exact { hall with
      sends := hall.sends.trans hsame.1 (.of_eq rfl)
      timer := fun _ => Or.inr ⟨events, rfl⟩ }
  · exact reject s (.typeError v)

theorem onStatus (h : Wired s) (event : SRTEpollResult) (status : ReturnValue) :
    Turn p s (.await (.handling (.getSockState event)) (.ok status)) (s.onStatus event status) := by
  unfold State.onStatus
  split
  · rename_i hs
    split
    · rename_i hl
      rw [hl]
      exact post h (simple_accept s.socket _) (.accept hs)
    · exact refl p s _
  rename_i hs
  split
  · split
    · exact closeConnection h _ _ fun fd _ => ⟨event, status, fd, rfl, rfl⟩
    · exact refl p s _
  · split
    · exact emit s (by simp) (.ofConnection _ _ _) rfl
    · exact reject s (.notInMap hs ‹_›)

theorem resumeHandle (h : Wired s) (v : ReturnValue) (step : HandleStep) :
    Turn p s (.await (.handling step) (.ok v)) (s.resumeHandle v step) := by
  cases step with
  | getSockState event => exact onStatus h event v
  | accept => exact post h (simple_epollAddUsock s.epid (.ofReply v) _) .add
  | epollAddUsock fd =>
    have hemit := emit (p := p) (x := .await (.handling (.epollAddUsock fd)) (.ok v)) s
      (by simp) (e := .connection s.connections.length) (f := .connection) (.connection _) rfl
    exact { hemit with sends := .of_eq rfl }
  | close fd => exact emit s (by simp) (.disconnection _ _) rfl

theorem resume (h : Wired s) {a : Await} (ha : a.owning = false)
    (r : Except Failure ReturnValue) : Turn p s (.await a r) (s.resume a r) := by
  cases a with
  | create | disposeClose | disposeAsync | closing c caller => cases ha
  | opening step =>
    cases r with
    | ok v => exact resumeOpen h v step
    | error e => exact ret s (.fails _ _ e)
  | epollUWait =>
    cases r with
    | ok v => exact onEvents h v
    | error e => exact reject s (.awaited _ e)
  | handling step =>
    cases r with
    | ok v => exact resumeHandle h v step
    | error e => exact reject s (.awaited _ e)

theorem afterListeners (h : Wired s) {f : Frame} (hc : f.isClosing = false) :
    Turn p s (.listeners f) (s.afterListeners f) := by
  cases f with
  | created => exact ret s .creates
  | opened => exact post h (simple_epollAddUsock s.epid s.socket _) .subscribe
  | disposed =>
    exact { ret (p := p) s (.disposes (.listeners .disposed) (.ok (.value .undefined))) with
      sends := .of_eq rfl }
  | connection | disconnection => exact refl p s _
  | data c => exact { refl p s _ with sends := .of_eq rfl }
  | closing c caller | closed c caller v => cases hc

theorem listenerThrew (s : State σ ω) {f : Frame} (hc : f.isClosing = false) :
    Turn p s (.listeners f) (s.listenerThrew f) := by
  cases f with
  | created | opened => exact ret s (.fails _ _ _)
  | disposed =>
    exact { ret (p := p) s (.disposes (.listeners .disposed) (.error .listener)) with
      sends := .of_eq rfl }
  | connection | disconnection | data c => exact reject s (.listener _)
  | closing c caller | closed c caller v => cases hc

end Turn

/-! ## Steps -/

/-- What a step does: a function runs, a reply comes in, or the socket is created, closed or
disposed of, or something happens outside of the object. -/
inductive Change (sync : SyncSRT σ ω) (p : Config) (s : State σ ω) :
    Event ω → State σ ω → Prop
  | turns {e : Event ω} {x : Prompt} {u t : State σ ω} (hx : Prompted s e x u) (hw : Wired u)
      (ht : Turn p u x t) : Change sync p s e t
  | delivers (he : Enabled s (.deliver : Event ω)) : Change sync p s .deliver s.deliver
  | creates (hs : s.socket = .null) (hd : s.startedToDispose = false) :
      Change sync p s .create ({ s with createCalls := s.createCalls + 1 }.setAsync
        (s.asyncSrt.async.accept (.createSocket .undefined) false .create))
  | created {rest : List (Await × Except Failure ReturnValue)} {v : ReturnValue}
      (hs : s.stack = []) (hq : s.microtasks = (.create, .ok v) :: rest) :
      Change sync p s .resume
        ({ s with microtasks := rest, socket := .ofReply v }.emit .created .created)
  | closes {timer : Bool} (ht : timer = true → s.pollEventsTimer = true) (hs : s.socket ≠ .null)
      (hd : s.startedToDispose = false) :
      Change sync p s .dispose ({ s with
        pollEventsTimer := timer
        startedToDispose := true
        disposal := .closing }.post (.close s.socket.toValue) .disposeClose)
  | vacuous {timer : Bool} (ht : timer = true → s.pollEventsTimer = true) (hs : s.socket = .null)
      (hd : s.startedToDispose = false) :
      Change sync p s .dispose
        { s with pollEventsTimer := timer, startedToDispose := true }.emitDisposed
  | closed {rest : List (Await × Except Failure ReturnValue)} {v : ReturnValue}
      (hs : s.stack = []) (hq : s.microtasks = (.disposeClose, .ok v) :: rest) :
      Change sync p s .resume { s with microtasks := rest }.disposeAsync
  | disposed {rest : List (Await × Except Failure ReturnValue)} {v : ReturnValue}
      (hs : s.stack = []) (hq : s.microtasks = (.disposeAsync, .ok v) :: rest) :
      Change sync p s .resume { s with microtasks := rest, socket := .null }.emitDisposed
  | executes {data : AsyncSRTWorkerPost} {rest : List AsyncSRTWorkerPost}
      (hq : s.asyncSrt.async.toWorker = data :: rest) :
      Change sync p s .exec { s with asyncSrt :=
        ⟨s.asyncSrt.async.exec data (sync.call s.asyncSrt.native data).2,
          (sync.call s.asyncSrt.native data).1, s.asyncSrt.history ++ [.inr data]⟩ }
  | waits (hi : Idle s) (hd : s.asyncSrt.async.disposing = .waiting) :
      Change sync p s .pollDispose (s.setAsync (AsyncApi.next s.asyncSrt.async .pollDispose))
  | terminates (hs : s.stack = []) (hd : s.asyncSrt.async.disposing = .resuming) :
      Change sync p s .resumeDispose (s.setAsync s.asyncSrt.async.terminateWorker)
  | exits {code : ℤ} (hi : Idle s) (hd : s.asyncSrt.async.disposing = .terminating) :
      Change sync p s (.exited code)
        ((s.setAsync (AsyncApi.next s.asyncSrt.async (.exited code))).wake .disposeAsync
          (.ok .undefined))
  | env (w : ω) : Change sync p s (.env w) { s with asyncSrt :=
      { s.asyncSrt with
        native := sync.env s.asyncSrt.native w
        history := s.asyncSrt.history ++ [.inl w] } }

variable {sync : SyncSRT σ ω}

namespace Wired

theorem changes_create (h : Wired s) : Change sync p s .create s.create := by
  have hcount : Wired { s with createCalls := s.createCalls + 1 } :=
    h.frame rfl (fun _ hx => hx) h.frames id
  have hret : ∀ {r}, Returns s (.user .create) (.create, r) →
      Change sync p s .create ({ s with createCalls := s.createCalls + 1 }.ret .create r) :=
    fun hr => .turns (.user rfl) h { Turn.ret (p := p) s hr with sends := .of_eq rfl }
  simp only [State.create]
  by_cases hs : s.socket = .null
  · rw [if_neg (by simpa using hs)]
    by_cases hd : s.startedToDispose = true
    · rw [if_pos hd]
      exact hret (.createsNull hs hd)
    · rw [if_neg hd]
      have hd : s.startedToDispose = false := by simpa using hd
      have e := post_of_accepts hcount.invariant simple_createSocket
        (hcount.accepts hd simple_createSocket rfl) .create
      rw [e]
      exact .creates hs hd
  · rw [if_pos (by simpa using hs)]
    exact hret (.fails _ _ _)

theorem changes_dispose (h : Wired s) : Change sync p s .dispose (s.dispose p) := by
  obtain ⟨timer, ht, e⟩ : ∃ timer, (timer = true → s.pollEventsTimer = true) ∧
      (if p.kind = .server then s.clearTimers else s) = { s with pollEventsTimer := timer } := by
    split
    · exact ⟨false, (fun he => by cases he), rfl⟩
    · exact ⟨s.pollEventsTimer, id, rfl⟩
  simp only [State.dispose, e]
  by_cases hd : s.startedToDispose = true
  · rw [if_pos hd]
    exact .turns (.user rfl) h { Turn.ret (p := p) s (.disposes (.user .dispose) _) with
      sends := .of_eq rfl
      timer := fun hf => Or.inl (ht hf) }
  · rw [if_neg hd]
    have hd : s.startedToDispose = false := by simpa using hd
    by_cases hs : s.socket = .null
    · rw [if_neg (by simpa using hs)]
      exact .vacuous ht hs hd
    · rw [if_pos (by simpa using hs)]
      exact .closes ht hs hd

theorem changes_resume (h : Wired s) (hs : s.stack = []) {a : Await}
    {r : Except Failure ReturnValue} {rest : List (Await × Except Failure ReturnValue)}
    (hq : s.microtasks = (a, r) :: rest) :
    Change sync p s .resume ({ s with microtasks := rest }.resume a r) := by
  have hpop : Wired { s with microtasks := rest } := h.pop hq
  have hmem : a ∈ s.awaits := List.mem_append_left _ (by simp [hq])
  have hfail : ∀ e, Turn p { s with microtasks := rest } (.await a r)
      ({ s with microtasks := rest }.failDispose e) := fun e =>
    { Turn.ret (p := p) { s with microtasks := rest } (.disposes (.await a r) (.error e)) with
      sends := .of_eq rfl }
  cases ho : a.owning with
  | false => exact .turns (.await hs hq) hpop (.resume hpop ho r)
  | true =>
    cases a with
    | create =>
      cases r with
      | ok v => exact .created hs hq
      | error e =>
        have hor := h.origin (.create, .error e) (by simp [hq])
        simp [Origin, Await.method] at hor
    | disposeClose =>
      cases r with
      | ok v => exact .closed hs hq
      | error e => exact .turns (.await hs hq) hpop (hfail e)
    | disposeAsync =>
      cases r with
      | ok v => exact .disposed hs hq
      | error e => exact .turns (.await hs hq) hpop (hfail e)
    | closing c caller => exact absurd (h.waits _ hmem) (by simp [Await.isClosing])
    | opening step | epollUWait | handling step => cases ho

theorem changes_listenerReturn (h : Wired s) {f : Frame} {rest : List Frame}
    (hq : s.stack = f :: rest) (threw : Bool) :
    let u := { s with stack := rest }
    Change sync p s (.listenerReturn threw)
      (if threw then u.listenerThrew f else u.afterListeners f) := by
  intro u
  have hpop : Wired u :=
    h.frame rfl (fun _ hx => hx) (fun g hg => h.frames g (hq ▸ List.mem_cons_of_mem _ hg)) id
  have hc : f.isClosing = false := h.frames f (hq ▸ List.mem_cons_self)
  cases threw with
  | true => exact .turns (.listeners hq) hpop (.listenerThrew u hc)
  | false => exact .turns (.listeners hq) hpop (.afterListeners hpop hc)

/-- Every step is one of the listed changes. -/
theorem changes (h : Wired s) {e : Event ω} (he : Enabled s e) :
    Change sync p s e (next sync p s e) := by
  cases e with
  | create => exact h.changes_create
  | opening => exact .turns (.user rfl) h (.openSocket h)
  | dispose => exact h.changes_dispose
  | closeConnection c =>
    exact .turns (.user rfl) h (.closeConnection h c .user fun _ hc => by cases hc)
  | listenerReturn threw =>
    obtain ⟨f, rest, hq⟩ := List.exists_cons_of_ne_nil he
    simpa only [next, hq] using h.changes_listenerReturn hq threw
  | resume =>
    obtain ⟨hs, hm⟩ := he
    obtain ⟨⟨a, r⟩, rest, hq⟩ := List.exists_cons_of_ne_nil hm
    simpa only [next, hq] using h.changes_resume hs hq
  | resumeDispose =>
    have hw := h.invariant.disposal.held.mpr (Or.inr (Or.inr he.2))
    have hphase : s.asyncSrt.async.terminateWorker.disposing = .terminating := by
      simp [terminateWorker_eq hw]
    have e : next sync p s .resumeDispose = s.setAsync s.asyncSrt.async.terminateWorker := by
      simp [next, State.awaitDisposed, State.setAsync, hphase]
    rw [e]
    exact .terminates he.1 he.2
  | exec =>
    obtain ⟨data, rest, hq⟩ := List.exists_cons_of_ne_nil he.1
    rw [h.next_exec hq]
    exact .executes hq
  | deliver => exact .delivers he
  | pollTimer =>
    have hfire : Wired { s with pollEventsTimer := false } :=
      h.frame rfl (fun _ hx => hx) h.frames id
    exact .turns (.timer he.1 he.2) hfire (.pollEvents hfire fun hd => .pollAgain hd)
  | pollDispose => exact .waits he.1 he.2
  | exited code =>
    have e : next sync p s (.exited code) =
        (s.setAsync (AsyncApi.next s.asyncSrt.async (.exited code))).wake .disposeAsync
          (.ok .undefined) := by
      simp [next, State.awaitDisposed, State.setAsync, AsyncApi.next]
    rw [e]
    exact .exits he.1 he.2
  | env w => exact .env w

end Wired

/-- What a step does to the native object: only the worker and the network touch it. -/
inductive Acts (sync : SyncSRT σ ω) (s t : State σ ω) : Event ω → Prop
  | none {e : Event ω} (h : (t.asyncSrt.native, t.asyncSrt.async.executed) =
      (s.asyncSrt.native, s.asyncSrt.async.executed)) : Acts sync s t e
  | exec {data : AsyncSRTWorkerPost} {rest : List AsyncSRTWorkerPost}
      (hq : s.asyncSrt.async.toWorker = data :: rest)
      (h : (t.asyncSrt.native, t.asyncSrt.async.executed, t.asyncSrt.async.posted) =
        ((sync.call s.asyncSrt.native data).1,
          s.asyncSrt.async.executed ++ [(data, (sync.call s.asyncSrt.native data).2)],
          s.asyncSrt.async.posted)) : Acts sync s t .exec
  | env {w : ω} (h : (t.asyncSrt.native, t.asyncSrt.async.executed, t.asyncSrt.async.posted) =
      (sync.env s.asyncSrt.native w, s.asyncSrt.async.executed, s.asyncSrt.async.posted)) :
      Acts sync s t (.env w)

theorem Change.acts {e : Event ω} (hc : Change sync p s e t) (h : Wired s) : Acts sync s t e := by
  cases hc with
  | turns hx _ ht =>
    have hf := ht.sends.fields
    have hsame := hx.same
    simp only [Prod.mk.injEq] at hf hsame
    rw [hsame.1] at hf
    exact .none (Prod.ext hf.2.2.1 hf.2.2.2.1)
  | delivers he =>
    obtain ⟨-, -, -, -, -, hf⟩ := h.delivers he
    simp only [Prod.mk.injEq] at hf
    exact .none (Prod.ext hf.2.2.2.2.2.2.1 hf.2.2.2.2.2.2.2.1)
  | creates | created | vacuous | disposed | exits => exact .none rfl
  | closes =>
    obtain ⟨hf, -⟩ := (h.closing _).post_sends (simple_close s.socket) .disposeClose
    simp only [Prod.mk.injEq] at hf
    exact .none (Prod.ext hf.2.2.1 hf.2.2.2.1)
  | closed _ hq =>
    obtain ⟨hf, -⟩ := (h.pop hq).disposeAsync_frame
    simp only [Prod.mk.injEq] at hf
    exact .none (Prod.ext hf.2.2.2.2.2.2.1 hf.2.2.2.2.2.2.2.2)
  | executes hq =>
    refine .exec hq ?_
    simp only [exec_executed _ (h.executing hq).2.1]
    rfl
  | waits =>
    simp only [AsyncApi.next]
    split <;> exact .none rfl
  | terminates _ hd =>
    have hl := h.invariant.disposal.clear (by simp [hd]) (by simp [hd])
    have hsame := h.terminateWorker_same hl
    simp only [Prod.mk.injEq] at hsame
    exact .none (Prod.ext rfl hsame.2.1)
  | env w => exact .env rfl

/-- What a step posts: the calls of `create` and `dispose`, or those of a function. -/
inductive Posts (p : Config) (s : State σ ω) (e : Event ω) :
    OnResult Await × AsyncSRTWorkerPost → Prop
  | create {q : OnResult Await × AsyncSRTWorkerPost} (hw : q.1.waiter = .create)
      (hp : q.2 = createPost) : Posts p s e q
  | close {q : OnResult Await × AsyncSRTWorkerPost} (hw : q.1.waiter = .disposeClose)
      (hp : q.2 = (ApiCall.close s.socket.toValue).post) : Posts p s e q
  | calls {q : OnResult Await × AsyncSRTWorkerPost} {x : Prompt} {u : State σ ω}
      (hx : Prompted s e x u) (hc : Calls p u x q.1.waiter q.2)
      (hd : s.asyncSrt.async.startedToDispose = false) : Posts p s e q

theorem Change.posted {e : Event ω} (hc : Change sync p s e t) (h : Wired s) :
    ∃ qs, t.asyncSrt.async.posted = s.asyncSrt.async.posted ++ qs ∧ ∀ q ∈ qs, Posts p s e q := by
  have same : t.asyncSrt.async.posted = s.asyncSrt.async.posted →
      ∃ qs, t.asyncSrt.async.posted = s.asyncSrt.async.posted ++ qs ∧
        ∀ q ∈ qs, Posts p s e q := fun he => ⟨[], by simp [he], by simp⟩
  cases hc with
  | turns hx _ ht =>
    obtain ⟨-, qs, ms, hp, -, -, hqs, -⟩ := ht.sends
    have hsame := hx.same
    simp only [Prod.mk.injEq] at hsame
    exact ⟨qs, hsame.1 ▸ hp, fun q hq =>
      .calls hx (hqs q hq).1 (hsame.1 ▸ (hqs q hq).2.1)⟩
  | delivers he =>
    obtain ⟨-, -, -, -, -, hf⟩ := h.delivers he
    simp only [Prod.mk.injEq] at hf
    exact same hf.2.2.2.2.2.2.2.2
  | creates =>
    refine ⟨[_], rfl, fun q hq => ?_⟩
    rw [List.mem_singleton.mp hq]
    exact .create rfl rfl
  | closes =>
    obtain ⟨-, -, qs, ms, hp, -, -, hqs, -⟩ :=
      (h.closing _).post_sends (simple_close s.socket) .disposeClose
    exact ⟨qs, hp, fun q hq => .close (hqs q hq).1 (hqs q hq).2.1⟩
  | closed _ hq =>
    obtain ⟨hf, -⟩ := (h.pop hq).disposeAsync_frame
    simp only [Prod.mk.injEq] at hf
    exact same hf.2.2.2.2.2.2.2.1
  | terminates _ hd =>
    have hl := h.invariant.disposal.clear (by simp [hd]) (by simp [hd])
    have hsame := h.terminateWorker_same hl
    simp only [Prod.mk.injEq] at hsame
    exact same hsame.1
  | waits =>
    refine same ?_
    simp only [AsyncApi.next]
    split <;> rfl
  | created | vacuous | disposed | executes | exits | env => exact same rfl

theorem Change.log {e : Event ω} (hc : Change sync p s e t) (h : Wired s) : ∀ y ∈ t.log,
    y ∈ s.log ∨ y = .created ∨ y = .disposed ∨ ∃ x u, Prompted s e x u ∧ Emits x y := by
  intro y hy
  have append : ∀ z, y ∈ s.log ++ [z] → y ∈ s.log ∨ y = z := fun z hy =>
    (List.mem_append.mp hy).imp id List.mem_singleton.mp
  cases hc with
  | @turns e x u t hx _ ht =>
    have hsame := hx.same
    simp only [Prod.mk.injEq] at hsame
    exact (ht.log y hy).imp (fun hy => hsame.2.2.2.2.2.2.1 ▸ hy) fun he =>
      Or.inr (Or.inr ⟨x, u, hx, he⟩)
  | delivers he =>
    obtain ⟨q, ks, v, e, -⟩ := h.deliver_eq he.2
    rw [e] at hy
    exact Or.inl hy
  | created => exact (append .created hy).imp id Or.inl
  | vacuous | disposed => exact (append .disposed hy).imp id fun he => Or.inr (Or.inl he)
  | closes =>
    obtain ⟨-, he, -⟩ := (h.closing _).post_sends (simple_close s.socket) .disposeClose
    simp only [Prod.mk.injEq] at he
    exact Or.inl (he.2.1 ▸ hy)
  | closed _ hq =>
    obtain ⟨hf, -⟩ := (h.pop hq).disposeAsync_frame
    simp only [Prod.mk.injEq] at hf
    exact Or.inl (hf.2.2.2.1 ▸ hy)
  | creates | executes | terminates | exits | env => exact Or.inl hy
  | waits =>
    simp only [AsyncApi.next] at hy
    split at hy <;> exact Or.inl hy

theorem execution_called {n : σ} (h : (machine sync p).Execution (initial n) s) :
    ∀ y ∈ s.asyncSrt.async.executed, ∃ m, y.2 = (sync.call m y.1).2 := by
  have main : Wired s ∧ ∀ y ∈ s.asyncSrt.async.executed, ∃ m, y.2 = (sync.call m y.1).2 := by
    refine h.invariant (I := fun s => Wired s ∧ ∀ y ∈ s.asyncSrt.async.executed,
      ∃ m, y.2 = (sync.call m y.1).2) ⟨initial_wired n, fun y hy => by cases hy⟩ fun u e hu he => ?_
    obtain ⟨hw, hall⟩ := hu
    refine ⟨step_wired (p := p) hw he, fun y hy => ?_⟩
    have hc : Change sync p u e (next sync p u e) := hw.changes he
    cases hc.acts hw with
    | none h =>
      simp only [Prod.mk.injEq] at h
      exact hall y (h.2 ▸ hy)
    | exec hq h =>
      simp only [Prod.mk.injEq] at h
      rcases List.mem_append.mp (h.2.1 ▸ hy) with hy | hy
      · exact hall y hy
      · rw [List.mem_singleton.mp hy]
        exact ⟨_, rfl⟩
    | env h =>
      simp only [Prod.mk.injEq] at h
      exact hall y (h.2.1 ▸ hy)
  exact main.2

end SocketAsync
