import NodeSrt.AsyncApiRefinement

/-! # The native object

The wrappers of `node-srt.cc` around libsrt. The library itself is a parameter, with the
parts of its documentation that results rest on as named laws. A call with arguments of
other types than the socket classes pass, or of a method they do not call, is left to the
parameter `other`. -/
namespace NativeSrt

open AsyncValues
open AsyncApi

/-! ## libsrt -/

def SRTS_INIT : ℤ := 1
def SRTS_OPENED : ℤ := 2
def SRTS_LISTENING : ℤ := 3
def SRTS_CONNECTING : ℤ := 4
def SRTS_CONNECTED : ℤ := 5
def SRTS_BROKEN : ℤ := 6
def SRTS_CLOSING : ℤ := 7
def SRTS_CLOSED : ℤ := 8
def SRTS_NONEXIST : ℤ := 9

def SRT_EPOLL_IN : ℤ := 1
def SRT_EPOLL_ERR : ℤ := 8

def EPOLL_EVENTS_NUM_MAX : ℤ := 1024

/-- The library functions the wrappers call, with what they are given. An address is the
four bytes `inet_pton` writes. -/
inductive SrtCall where
  | createSocket
  | setsockflagSender (u : ℤ)
  | bind (u address port : ℤ)
  | listen (u backlog : ℤ)
  | connect (u address port : ℤ)
  | accept (u : ℤ)
  | close (u : ℤ)
  | epollCreate
  | epollAddUsock (eid u events : ℤ)
  | epollUwait (eid fdsSize msTimeOut : ℤ)
  deriving DecidableEq, Repr

/-- The returned `int`, and what `srt_epoll_uwait` writes to `fdsSet`. -/
structure SrtReturn where
  value : ℤ
  fdsSet : List SRTEpollResult
  deriving DecidableEq, Repr

/-- The library: its functions, what can be observed of it, and its environment. -/
structure Libsrt (σ ω : Type*) where
  run : σ → SrtCall → σ × SrtReturn
  getsockstate : σ → ℤ → ℤ
  getlasterrorStr : σ → JSString
  inetPton : JSString → Option ℤ
  other : σ → AsyncSRTWorkerPost → σ × Outcome
  env : σ → ω → σ
  handedOut : σ → ℤ → Prop
  subscribed : σ → ℤ → ℤ → Prop

variable {σ ω : Type*}

def Libsrt.Listening (lib : Libsrt σ ω) (n : σ) (u : ℤ) : Prop :=
  lib.getsockstate n u = SRTS_LISTENING

/-- Neither broken nor closed nor unknown to the library. -/
def Libsrt.Open (lib : Libsrt σ ω) (n : σ) (u : ℤ) : Prop :=
  lib.getsockstate n u < SRTS_BROKEN

instance (lib : Libsrt σ ω) (n : σ) (u : ℤ) : Decidable (lib.Listening n u) :=
  inferInstanceAs (Decidable (_ = _))

instance (lib : Libsrt σ ω) (n : σ) (u : ℤ) : Decidable (lib.Open n u) :=
  inferInstanceAs (Decidable (_ < _))

inductive Action (ω : Type*) where
  | run (c : SrtCall)
  | other (post : AsyncSRTWorkerPost)
  | env (w : ω)

def Libsrt.act (lib : Libsrt σ ω) (n : σ) : Action ω → σ
  | .run c => (lib.run n c).1
  | .other post => (lib.other n post).1
  | .env w => lib.env n w

/-- The documented behaviour the results rest on. -/
structure Libsrt.Lawful (lib : Libsrt σ ω) : Prop where
  listen_listens : ∀ n u backlog, (lib.run n (.listen u backlog)).2.value ≠ SRT_ERROR →
    lib.Listening (lib.run n (.listen u backlog)).1 u
  add_subscribes : ∀ n eid u events,
    (lib.run n (.epollAddUsock eid u events)).2.value ≠ SRT_ERROR →
    lib.subscribed (lib.run n (.epollAddUsock eid u events)).1 eid u
  create_hands_out : ∀ n, (lib.run n .createSocket).2.value ≠ SRT_ERROR →
    lib.handedOut (lib.run n .createSocket).1 (lib.run n .createSocket).2.value
  handed_out_stays : ∀ n a u, lib.handedOut n u → lib.handedOut (lib.act n a) u
  close_ends : ∀ n u, lib.handedOut n u → ¬ lib.Open (lib.run n (.close u)).1 u
  not_reopened : ∀ n a u, lib.handedOut n u → ¬ lib.Open n u → ¬ lib.Open (lib.act n a) u
  only_close_ends_listening : ∀ n a u, a ≠ .run (.close u) → lib.Listening n u →
    lib.Listening (lib.act n a) u
  only_close_unsubscribes : ∀ n a eid u, a ≠ .run (.close u) → lib.subscribed n eid u →
    lib.subscribed (lib.act n a) eid u

/-- New sockets get ids that were not in use before. -/
structure Libsrt.Fresh (lib : Libsrt σ ω) : Prop where
  create_fresh : ∀ n, (lib.run n .createSocket).2.value ≠ SRT_ERROR →
    ¬ lib.handedOut n (lib.run n .createSocket).2.value
  accept_fresh : ∀ n u, (lib.run n (.accept u)).2.value ≠ SRT_ERROR →
    ¬ lib.handedOut n (lib.run n (.accept u)).2.value ∧
      lib.handedOut (lib.run n (.accept u)).1 (lib.run n (.accept u)).2.value

/-- The clients that wait at a listening socket: a poll reports the socket only while there
are some, and nothing but an `accept` makes them fewer. -/
structure Libsrt.Backlogged (lib : Libsrt σ ω) (backlog : σ → ℤ → ℕ) : Prop where
  reported : ∀ n eid size timeout,
    ∀ event ∈ (lib.run n (.epollUwait eid size timeout)).2.fdsSet.take
      (lib.run n (.epollUwait eid size timeout)).2.value.toNat,
    lib.Listening n event.socket → 0 < backlog n event.socket
  only_accept_shrinks : ∀ n a u, a ≠ .run (.accept u) → lib.Listening n u →
    lib.Listening (lib.act n a) u → backlog n u ≤ backlog (lib.act n a) u

/-- Only a socket of the library that listens accepts. -/
structure Libsrt.AcceptsListening (lib : Libsrt σ ω) : Prop where
  accept_listens : ∀ n u, (lib.run n (.accept u)).2.value ≠ SRT_ERROR →
    lib.handedOut n u ∧ lib.Listening n u

/-! ## node-srt.cc -/

/-- `Napi::Error::New(env, srt_getlasterror_str()).ThrowAsJavaScriptException()` -/
def Libsrt.throwLast (lib : Libsrt σ ω) (n : σ) : σ × Outcome :=
  (n, .error ⟨lib.getlasterrorStr n⟩)

/-- `Bind`, `Listen` and `Connect` close the socket when the library call fails. -/
def Libsrt.runOrClose (lib : Libsrt σ ω) (n : σ) (u : ℤ) (c : SrtCall) : σ × Outcome :=
  let r := lib.run n c
  if r.2.value = SRT_ERROR then lib.throwLast (lib.run r.1 (.close u)).1
  else (r.1, .ok (.number r.2.value))

/-- `Close` and `EpollAddUsock` throw when the library call fails, `EpollCreate` too. -/
def Libsrt.runOrThrow (lib : Libsrt σ ω) (n : σ) (c : SrtCall) (failed : ℤ → Bool) : σ × Outcome :=
  let r := lib.run n c
  if failed r.2.value then lib.throwLast r.1 else (r.1, .ok (.number r.2.value))

def Libsrt.createSocket (lib : Libsrt σ ω) (n : σ) (isSender : Bool) : σ × Outcome :=
  let r := lib.run n .createSocket
  if r.2.value = SRT_ERROR then lib.throwLast r.1
  else
    let m := if isSender then (lib.run r.1 (.setsockflagSender r.2.value)).1 else r.1
    (m, .ok (.number r.2.value))

def Libsrt.bind (lib : Libsrt σ ω) (n : σ) (socketId : ℤ) (address : JSString) (port : ℤ) :
    σ × Outcome :=
  match lib.inetPton address with
  | none => (n, .error ⟨ascii "Failed to init addr.sin_addr"⟩)
  | some addr => lib.runOrClose n socketId (.bind socketId addr port)

def Libsrt.listen (lib : Libsrt σ ω) (n : σ) (socketId backlog : ℤ) : σ × Outcome :=
  lib.runOrClose n socketId (.listen socketId backlog)

/-- Here the result of `inet_pton` is not looked at; the address was zeroed before. -/
def Libsrt.connect (lib : Libsrt σ ω) (n : σ) (socketId : ℤ) (host : JSString) (port : ℤ) :
    σ × Outcome :=
  lib.runOrClose n socketId (.connect socketId ((lib.inetPton host).getD 0) port)

/-- The listening socket is closed when the call fails, and also when it succeeds. -/
def Libsrt.accept (lib : Libsrt σ ω) (n : σ) (socketId : ℤ) : σ × Outcome :=
  let r := lib.run n (.accept socketId)
  if r.2.value = SRT_ERROR then lib.throwLast (lib.run r.1 (.close socketId)).1
  else ((lib.run r.1 (.close socketId)).1, .ok (.number r.2.value))

def Libsrt.close (lib : Libsrt σ ω) (n : σ) (socketId : ℤ) : σ × Outcome :=
  lib.runOrThrow n (.close socketId) (· == SRT_ERROR)

def Libsrt.epollCreate (lib : Libsrt σ ω) (n : σ) : σ × Outcome :=
  lib.runOrThrow n .epollCreate (· < 0)

def Libsrt.epollAddUsock (lib : Libsrt σ ω) (n : σ) (epid socketId events : ℤ) : σ × Outcome :=
  lib.runOrThrow n (.epollAddUsock epid socketId events) (· == SRT_ERROR)

/-- A negative count makes an empty array. -/
def Libsrt.epollUWait (lib : Libsrt σ ω) (n : σ) (epid msTimeOut : ℤ) : σ × Outcome :=
  let r := lib.run n (.epollUwait epid EPOLL_EVENTS_NUM_MAX msTimeOut)
  (r.1, .ok (.epollResults (r.2.fdsSet.take r.2.value.toNat)))

def Libsrt.call (lib : Libsrt σ ω) (n : σ) (post : AsyncSRTWorkerPost) : σ × Outcome :=
  match post.method, post.args with
  | .createSocket, [.boolean isSender] => lib.createSocket n isSender
  | .bind, [.number socketId, .string address, .number port] => lib.bind n socketId address port
  | .listen, [.number socketId, .number backlog] => lib.listen n socketId backlog
  | .connect, [.number socketId, .string host, .number port] => lib.connect n socketId host port
  | .accept, [.number socketId] => lib.accept n socketId
  | .close, [.number socketId] => lib.close n socketId
  | .getSockState, [.number socketId] => (n, .ok (.number (lib.getsockstate n socketId)))
  | .epollCreate, [] => lib.epollCreate n
  | .epollAddUsock, [.number epid, .number socketId, .number events] =>
    lib.epollAddUsock n epid socketId events
  | .epollUWait, [.number epid, .number msTimeOut] => lib.epollUWait n epid msTimeOut
  | _, _ => lib.other n post

def nodeSRT (lib : Libsrt σ ω) : SyncSRT σ ω := ⟨lib.call, lib.env⟩

/-- The calls that run `srt_close` on the socket `u`. -/
def Libsrt.closes (lib : Libsrt σ ω) (n : σ) (post : AsyncSRTWorkerPost) (u : ℤ) : Bool :=
  match post.method, post.args with
  | .bind, [.number socketId, .string address, .number port] =>
    socketId = u && (lib.inetPton address).any fun addr =>
      (lib.run n (.bind socketId addr port)).2.value = SRT_ERROR
  | .listen, [.number socketId, .number backlog] =>
    socketId = u && (lib.run n (.listen socketId backlog)).2.value = SRT_ERROR
  | .connect, [.number socketId, .string host, .number port] =>
    socketId = u &&
      (lib.run n (.connect socketId ((lib.inetPton host).getD 0) port)).2.value = SRT_ERROR
  | .accept, [.number socketId] | .close, [.number socketId] => socketId = u
  | _, _ => false

theorem Libsrt.closes_first {lib : Libsrt σ ω} {n : σ} {post : AsyncSRTWorkerPost} {u : ℤ}
    (h : lib.closes n post u = true) : post.args.head? = some (.number u) ∧
      post.method ∈ [Method.bind, .listen, .connect, .accept, .close] := by
  obtain ⟨method, args⟩ := post
  unfold Libsrt.closes at h
  split at h <;> simp_all

/-! ## What a call does to the library -/

/-- Actions that all meet `P` lead from one state of the library to another. -/
def Libsrt.Acts (lib : Libsrt σ ω) (P : Action ω → Prop) (n m : σ) : Prop :=
  ∃ as : List (Action ω), (∀ a ∈ as, P a) ∧ m = as.foldl lib.act n

namespace Libsrt

variable {lib : Libsrt σ ω} {P : Action ω → Prop} {n : σ}

theorem Acts.none (n : σ) : lib.Acts P n n := ⟨[], by simp, rfl⟩

theorem Acts.one (n : σ) {a : Action ω} (ha : P a) : lib.Acts P n (lib.act n a) :=
  ⟨[a], by simpa using ha, rfl⟩

theorem Acts.two (n : σ) {a b : Action ω} (ha : P a) (hb : P b) :
    lib.Acts P n (lib.act (lib.act n a) b) := ⟨[a, b], by simpa using ⟨ha, hb⟩, rfl⟩

theorem acts_runOrClose {u : ℤ} {c : SrtCall} (hc : P (.run c))
    (hu : (lib.run n c).2.value = SRT_ERROR → P (.run (.close u))) :
    lib.Acts P n (lib.runOrClose n u c).1 := by
  simp only [runOrClose]
  split
  · rename_i he
    exact .two n hc (hu he)
  · exact .one n hc

theorem acts_runOrThrow {c : SrtCall} (hc : P (.run c)) (failed : ℤ → Bool) :
    lib.Acts P n (lib.runOrThrow n c failed).1 := by
  simp only [runOrThrow]
  split <;> exact .one n hc

theorem acts_createSocket (hc : P (.run .createSocket))
    (hf : ∀ u, P (.run (.setsockflagSender u))) (isSender : Bool) :
    lib.Acts P n (lib.createSocket n isSender).1 := by
  simp only [createSocket]
  split
  · exact .one n hc
  · cases isSender with
    | false => exact .one n hc
    | true => exact .two n hc (hf _)

/-- A call closes the sockets that `closes` names, accepts from the one an `accept` names, and
does nothing else of the kind. -/
theorem acts_call_of {post : AsyncSRTWorkerPost}
    (hP : ∀ a, (∀ u, a ≠ .run (.close u)) → (∀ u, a ≠ .run (.accept u)) → P a)
    (hc : ∀ u, lib.closes n post u = true → P (.run (.close u)))
    (ha : ∀ u, post = ⟨.accept, [.number u]⟩ → P (.run (.accept u))) :
    lib.Acts P n (lib.call n post).1 := by
  obtain ⟨method, args⟩ := post
  unfold call
  dsimp only
  split
  · exact acts_createSocket (hP _ (by simp) (by simp)) (fun _ => hP _ (by simp) (by simp)) _
  · simp only [bind]
    split
    · exact .none n
    · rename_i addr ha
      exact acts_runOrClose (hP _ (by simp) (by simp)) fun he => hc _ (by simp [closes, ha, he])
  · exact acts_runOrClose (hP _ (by simp) (by simp)) fun he => hc _ (by simp [closes, he])
  · exact acts_runOrClose (hP _ (by simp) (by simp)) fun he => hc _ (by simp [closes, he])
  · simp only [accept]
    split <;> exact .two n (ha _ rfl) (hc _ (by simp [closes]))
  · exact acts_runOrThrow (hc _ (by simp [closes])) _
  · exact .none n
  · exact acts_runOrThrow (hP _ (by simp) (by simp)) _
  · exact acts_runOrThrow (hP _ (by simp) (by simp)) _
  · exact .one n (hP (.run (.epollUwait _ _ _)) (by simp) (by simp))
  · exact .one n (hP (.other _) (by simp) (by simp))

theorem acts_call {post : AsyncSRTWorkerPost} (hP : ∀ a, (∀ u, a ≠ .run (.close u)) → P a)
    (hc : ∀ u, lib.closes n post u = true → P (.run (.close u))) :
    lib.Acts P n (lib.call n post).1 :=
  acts_call_of (fun a ha _ => hP a ha) hc fun _ _ => hP _ (by simp)

/-- What every action that meets `P` keeps. -/
theorem Acts.keeps {m : σ} (ha : lib.Acts P n m) {Q : σ → Prop} (hn : Q n)
    (hQ : ∀ n a, P a → Q n → Q (lib.act n a)) : Q m := by
  obtain ⟨as, hP, rfl⟩ := ha
  induction as generalizing n with
  | nil => exact hn
  | cons a as ih =>
    exact ih (hQ n a (hP a List.mem_cons_self) hn) fun b hb => hP b (List.mem_cons_of_mem _ hb)

theorem Lawful.handedOut (h : lib.Lawful) {m : σ} (ha : lib.Acts P n m) {u : ℤ}
    (hu : lib.handedOut n u) : lib.handedOut m u :=
  ha.keeps hu fun n a _ => h.handed_out_stays n a u

theorem Lawful.ended (h : lib.Lawful) {m : σ} (ha : lib.Acts P n m) {u : ℤ}
    (hu : lib.handedOut n u) (he : ¬ lib.Open n u) : ¬ lib.Open m u := by
  have hboth := ha.keeps (Q := fun n => lib.handedOut n u ∧ ¬ lib.Open n u) ⟨hu, he⟩
    fun n a _ hn => ⟨h.handed_out_stays n a u hn.1, h.not_reopened n a u hn.1 hn.2⟩
  exact hboth.2

/-- Only a call that closes a socket ends its listening and its subscriptions. -/
theorem Lawful.listening (h : lib.Lawful) {m : σ} {u : ℤ}
    (ha : lib.Acts (fun a => a ≠ .run (.close u)) n m) (hu : lib.Listening n u) :
    lib.Listening m u := ha.keeps hu fun n a hne => h.only_close_ends_listening n a u hne

theorem Lawful.subscribed (h : lib.Lawful) {m : σ} {eid u : ℤ}
    (ha : lib.Acts (fun a => a ≠ .run (.close u)) n m) (hu : lib.subscribed n eid u) :
    lib.subscribed m eid u := ha.keeps hu fun n a hne => h.only_close_unsubscribes n a eid u hne

theorem Listening.isOpen {u : ℤ} (h : lib.Listening n u) : lib.Open n u := by
  have he : lib.getsockstate n u = SRTS_LISTENING := h
  simp [Open, he, SRTS_LISTENING, SRTS_BROKEN]

theorem Lawful.act_listening (h : lib.Lawful) {u : ℤ} (hu : lib.handedOut n u)
    (hj : lib.Listening n u ∨ ¬ lib.Open n u) (a : Action ω) :
    lib.Listening (lib.act n a) u ∨ ¬ lib.Open (lib.act n a) u := by
  by_cases ha : a = .run (.close u)
  · rw [ha]
    exact Or.inr (h.close_ends n u hu)
  · exact hj.imp (h.only_close_ends_listening n a u ha) (h.not_reopened n a u hu)

theorem Lawful.listening_or_ended (h : lib.Lawful) {m : σ} (ha : lib.Acts P n m) {u : ℤ}
    (hu : lib.handedOut n u) (hj : lib.Listening n u ∨ ¬ lib.Open n u) :
    lib.Listening m u ∨ ¬ lib.Open m u := by
  have hboth := ha.keeps
    (Q := fun n => lib.handedOut n u ∧ (lib.Listening n u ∨ ¬ lib.Open n u)) ⟨hu, hj⟩
    fun n a _ hn => ⟨h.handed_out_stays n a u hn.1, h.act_listening hn.1 hn.2 a⟩
  exact hboth.2

/-- The clients of a socket that still listens wait until an `accept`. -/
theorem Backlogged.waits {backlog : σ → ℤ → ℕ} (hb : lib.Backlogged backlog) (h : lib.Lawful)
    {m : σ} {u : ℤ} (ha : lib.Acts (fun a => a ≠ .run (.accept u)) n m)
    (hu : lib.handedOut n u) (hj : lib.Listening n u ∨ ¬ lib.Open n u)
    (hw : lib.Listening n u → 0 < backlog n u) : lib.Listening m u → 0 < backlog m u := by
  have hall := ha.keeps (Q := fun n => lib.handedOut n u ∧
    (lib.Listening n u ∨ ¬ lib.Open n u) ∧ (lib.Listening n u → 0 < backlog n u))
    ⟨hu, hj, hw⟩ fun n a hne ⟨hu, hj, hw⟩ => by
      refine ⟨h.handed_out_stays n a u hu, h.act_listening hu hj a, fun hl => ?_⟩
      rcases hj with hj | hj
      · exact (hw hj).trans_le (hb.only_accept_shrinks n a u hne hj hl)
      · exact absurd hl.isOpen (h.not_reopened n a u hu hj)
  exact hall.2.2

theorem acts_call_unclosed {post : AsyncSRTWorkerPost} {u : ℤ}
    (hu : lib.closes n post u = false) :
    lib.Acts (fun a => a ≠ .run (.close u)) n (lib.call n post).1 := by
  refine acts_call (fun a ha => ha u) fun v hv he => ?_
  cases he
  simp [hu] at hv

theorem Lawful.created (h : lib.Lawful) {isSender : Bool} {u : ℤ}
    (ho : (lib.createSocket n isSender).2 = .ok (.number u)) :
    lib.handedOut (lib.createSocket n isSender).1 u := by
  simp only [createSocket] at ho ⊢
  split at ho
  · cases ho
  · rename_i hne
    rw [if_neg hne]
    cases ho
    have hout := h.create_hands_out n hne
    cases isSender with
    | false => exact hout
    | true => exact h.handed_out_stays _ (.run (.setsockflagSender _)) _ hout

theorem Fresh.created (h : lib.Fresh) {isSender : Bool} {u : ℤ}
    (ho : (lib.createSocket n isSender).2 = .ok (.number u)) : ¬ lib.handedOut n u := by
  simp only [createSocket] at ho
  split at ho
  · cases ho
  · cases ho
    exact h.create_fresh n ‹_›

theorem Fresh.accepted (h : lib.Fresh) (hl : lib.Lawful) {u fd : ℤ}
    (ho : (lib.accept n u).2 = .ok (.number fd)) :
    fd ≠ SRT_ERROR ∧ ¬ lib.handedOut n fd ∧ lib.handedOut (lib.accept n u).1 fd := by
  simp only [accept] at ho ⊢
  split at ho
  · cases ho
  · rename_i hne
    rw [if_neg hne]
    cases ho
    obtain ⟨hnew, hout⟩ := h.accept_fresh n u hne
    exact ⟨hne, hnew, hl.handed_out_stays _ (.run (.close u)) _ hout⟩

theorem Lawful.listens (h : lib.Lawful) {u backlog : ℤ} {v : ReturnValue}
    (ho : (lib.listen n u backlog).2 = .ok v) : lib.Listening (lib.listen n u backlog).1 u := by
  simp only [listen, runOrClose] at ho ⊢
  split at ho
  · cases ho
  · rename_i hne
    rw [if_neg hne]
    exact h.listen_listens n u backlog hne

theorem Lawful.subscribes (h : lib.Lawful) {epid u events : ℤ} {v : ReturnValue}
    (ho : (lib.epollAddUsock n epid u events).2 = .ok v) :
    lib.subscribed (lib.epollAddUsock n epid u events).1 epid u := by
  simp only [epollAddUsock, runOrThrow] at ho ⊢
  split at ho
  · cases ho
  · rename_i hne
    rw [if_neg hne]
    exact h.add_subscribes n epid u events (by simpa using hne)

/-- The listening socket of an `accept` is not open afterwards, whatever became of it. -/
theorem Lawful.accept_ends (h : lib.Lawful) {u : ℤ} (hu : lib.handedOut n u) :
    ¬ lib.Open (lib.accept n u).1 u := by
  have hout : lib.handedOut (lib.run n (.accept u)).1 u :=
    h.handed_out_stays n (.run (.accept u)) u hu
  simp only [accept]
  split <;> exact h.close_ends _ u hout

theorem createSocket_number (n : σ) (isSender : Bool) :
    ∃ k, resultOf (lib.createSocket n isSender).2 = .number k := by
  simp only [createSocket]
  split <;> exact ⟨_, rfl⟩

theorem runOrThrow_number (n : σ) (c : SrtCall) (failed : ℤ → Bool) :
    ∃ k, resultOf (lib.runOrThrow n c failed).2 = .number k := by
  simp only [runOrThrow]
  split <;> exact ⟨_, rfl⟩

theorem close_state (n : σ) (u : ℤ) : (lib.close n u).1 = (lib.run n (.close u)).1 := by
  simp only [close, runOrThrow]
  split <;> rfl

end Libsrt

end NativeSrt
