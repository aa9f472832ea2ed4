import NodeSrt.SocketAsyncOwnership

/-! # The disconnects a server handles

`_handleEvent` relies on `close` of the connection to take the fd out of the map. A new
connection is closed already, so `close` answers `null` and the map keeps the fd: each poll
round that reports the broken socket emits `disconnection` once more. What the server
promises of disconnects it keeps exactly as long as no connection is closed. -/
namespace SocketAsync

open AsyncValues
open TransitionSystem
open AsyncApi
open NativeSrt
open ServerConnection (SRTServerConnection)

variable {σ ω : Type*} {s t : State σ ω}

def State.Accepted (s : State σ ω) (c : ℕ) : Prop :=
  ∃ conn, s.connections[c]? = some conn ∧ ∃ fd, conn.fd = .number fd ∧ fd ≠ SRT_ERROR

/-- The calls of the native close the worker was sent, and those for one socket. -/
def State.closesPosted (s : State σ ω) : ℕ :=
  s.asyncSrt.async.posted.countP fun p => p.2.method = .close

def State.closesOf (s : State σ ω) (fd : ℤ) : ℕ :=
  s.asyncSrt.async.posted.countP fun p => p.2 = closePostOf fd

structure HandledOnce (s : State σ ω) : Prop where
  emitted : ∀ fd, s.log.count (.disconnection fd) ≤ 1
  closed : ∀ fd, s.closesOf fd ≤ 1
  removed : ∀ fd, .disconnection fd ∈ s.log → s.lookup (.number fd) = none
  listed : ∀ c, c ∈ s.getAllConnections ↔ s.Accepted c ∧ c ∉ s.closeCalls

/-! ## Conditions on a run -/

/-- The fd a connection is about to be made for. -/
def State.connecting (s : State σ ω) : Option Slot :=
  match s.microtasks with
  | (.handling (.epollAddUsock fd), .ok _) :: _ => some fd
  | _ => none

def State.disconnecting (s : State σ ω) : Option ℕ :=
  match s.microtasks with
  | (.handling (.getSockState event), .ok status) :: _ =>
    if s.socket ≠ .number event.socket ∧ brokenOrClosed status then
      s.lookup (.number event.socket)
    else none
  | _ => none

def NewFd (s : State σ ω) : Event ω → Prop
  | .resume => ∀ fd ∈ s.connecting.toList,
      fd ∉ [.null, .undefined, .number SRT_ERROR] ∧ s.lookup fd.toValue = none
  | _ => True

def ClosesNone (s : State σ ω) : Event ω → Prop
  | .resume => s.disconnecting = none
  | .closeConnection _ => False
  | _ => True

instance (s : State σ ω) : (e : Event ω) → Decidable (NewFd s e)
  | .resume => inferInstanceAs (Decidable (∀ fd ∈ s.connecting.toList,
      fd ∉ [Slot.null, .undefined, .number SRT_ERROR] ∧ s.lookup fd.toValue = none))
  | .create | .opening | .dispose | .closeConnection _ | .listenerReturn _ | .resumeDispose
  | .exec | .deliver | .pollTimer | .pollDispose | .exited _ | .env _ => isTrue trivial

instance (s : State σ ω) : (e : Event ω) → Decidable (ClosesNone s e)
  | .resume => inferInstanceAs (Decidable (s.disconnecting = none))
  | .closeConnection _ => isFalse id
  | .create | .opening | .dispose | .listenerReturn _ | .resumeDispose
  | .exec | .deliver | .pollTimer | .pollDispose | .exited _ | .env _ => isTrue trivial

/-! ## Steps that no connection takes part in -/

def Await.ofClose : Await → Bool
  | .handling (.close _) => true
  | _ => false

structure Keeps (s t : State σ ω) : Prop where
  fields : (t.connections.map SRTServerConnection.fd, t.connectionMap, t.closeCalls) =
    (s.connections.map SRTServerConnection.fd, s.connectionMap, s.closeCalls)
  microtasks : ∀ x ∈ t.microtasks, x ∈ s.microtasks ∨ x.1.ofClose = false
  log : ∀ fd, .disconnection fd ∈ t.log → .disconnection fd ∈ s.log

namespace Keeps

theorem refl (s : State σ ω) : Keeps s s := ⟨rfl, fun _ => Or.inl, fun _ => id⟩

theorem trans {u : State σ ω} (h : Keeps s t) (k : Keeps t u) : Keeps s u :=
  ⟨k.fields.trans h.fields, fun x hx => (k.microtasks x hx).elim (h.microtasks x) Or.inr,
    fun fd hm => h.log fd (k.log fd hm)⟩

theorem of_eq (he : (t.connections, t.connectionMap, t.closeCalls, t.microtasks, t.log) =
    (s.connections, s.connectionMap, s.closeCalls, s.microtasks, s.log)) : Keeps s t := by
  simp only [Prod.mk.injEq] at he
  obtain ⟨hc, hm, hcalls, hmicro, hl⟩ := he
  exact ⟨by rw [hc, hm, hcalls], fun x hx => Or.inl (hmicro ▸ hx), fun fd h => hl ▸ h⟩

theorem pop {x : Await × Except Failure ReturnValue}
    {rest : List (Await × Except Failure ReturnValue)} (hq : s.microtasks = x :: rest) :
    Keeps s { s with microtasks := rest } :=
  ⟨rfl, fun _ hx => Or.inl (hq ▸ List.mem_cons_of_mem _ hx), fun _ => id⟩

theorem wake (s : State σ ω) {a : Await} (ha : a.ofClose = false)
    (r : Except Failure ReturnValue) : Keeps s (s.wake a r) := by
  refine ⟨rfl, fun x hx => ?_, fun _ => id⟩
  rcases List.mem_append.mp hx with hx | hx
  · exact Or.inl hx
  · rw [List.mem_singleton.mp hx]
    exact Or.inr ha

theorem wakeSettled (s : State σ ω) {a : Await} (ha : a.ofClose = false) (x : Settlement) :
    Keeps s (s.wakeSettled a x) := by
  cases x with
  | pending => exact refl s
  | fulfilled v => exact wake s ha _
  | rejected e => exact wake s ha _

theorem post (s : State σ ω) (c : ApiCall) {a : Await} (ha : a.ofClose = false) :
    Keeps s (s.post c a) := by
  have hset : ∀ async, Keeps s (s.setAsync async) := fun _ => of_eq rfl
  unfold State.post
  dsimp only
  split
  · exact (hset _).trans (wakeSettled _ ha _)
  · exact (hset _).trans (wake _ ha _)
  · exact (hset _).trans (wake _ ha _)
  · exact (hset _).trans (wake _ ha _)

theorem emit (s : State σ ω) {e : Emission} (he : ∀ fd, e ≠ .disconnection fd) (f : Frame) :
    Keeps s (s.emit e f) := by
  refine ⟨rfl, fun _ => Or.inl, fun fd hm => ?_⟩
  rcases List.mem_append.mp hm with hm | hm
  · exact hm
  · exact absurd (List.mem_singleton.mp hm).symm (he fd)

theorem pollEvents (s : State σ ω) : Keeps s s.pollEvents := by
  unfold State.pollEvents
  split
  · exact of_eq rfl
  · exact post s _ rfl

theorem create (s : State σ ω) : Keeps s s.create := by
  have hcount : Keeps s { s with createCalls := s.createCalls + 1 } := of_eq rfl
  unfold State.create
  dsimp only
  split
  · exact of_eq rfl
  · split
    · exact of_eq rfl
    · exact hcount.trans (post _ _ rfl)

theorem openSocket (s : State σ ω) (p : Config) : Keeps s (s.openSocket p) := by
  unfold State.openSocket
  split
  · exact of_eq rfl
  split
  · exact of_eq rfl
  unfold State.doOpen
  split
  · exact post s _ rfl
  · split
    · exact of_eq rfl
    · exact post s _ rfl

theorem emitDisposed (s : State σ ω) : Keeps s s.emitDisposed := by
  have hstage : Keeps s { s with disposal := .emitting } := of_eq rfl
  exact hstage.trans (emit _ (by simp) _)

theorem dispose (s : State σ ω) (p : Config) : Keeps s (s.dispose p) := by
  obtain ⟨u, hu, e⟩ : ∃ u, Keeps s u ∧ u = if p.kind = .server then s.clearTimers else s := by
    split
    · exact ⟨s.clearTimers, of_eq rfl, rfl⟩
    · exact ⟨s, refl s, rfl⟩
  simp only [State.dispose, ← e]
  apply hu.trans
  split
  · exact of_eq rfl
  · split
    · have hstage : Keeps u { u with startedToDispose := true, disposal := .closing } := of_eq rfl
      exact hstage.trans (post _ _ rfl)
    · have hstart : Keeps u { u with startedToDispose := true } := of_eq rfl
      exact hstart.trans (emitDisposed _)

theorem awaitDisposed (s : State σ ω) (started : Bool) : Keeps s (s.awaitDisposed started) := by
  unfold State.awaitDisposed
  split
  · exact wake s rfl _
  · exact refl s

theorem disposeAsync (s : State σ ω) : Keeps s s.disposeAsync := by
  have hstage : Keeps s { s.setAsync s.asyncSrt.async.dispose with disposal := .disposing } :=
    of_eq rfl
  exact hstage.trans (awaitDisposed _ _)

theorem unlessFailed (s : State σ ω) (v : ReturnValue) (e : SocketError) (h : Keeps s t) :
    Keeps s (s.unlessFailed v e t) := by
  unfold State.unlessFailed
  split
  · exact of_eq rfl
  · exact h

theorem resumeOpen (s : State σ ω) (v : ReturnValue) (step : OpenStep) :
    Keeps s (s.resumeOpen v step) := by
  cases step with
  | bind => exact unlessFailed s v _ (post s _ rfl)
  | listen => exact unlessFailed s v _ (post s _ rfl)
  | epollCreate =>
    have hset : Keeps s { s with epid := .ofReply v } := of_eq rfl
    exact unlessFailed s v _ (hset.trans (emit _ (by simp) _))
  | epollAddUsock =>
    have hret : Keeps s.pollEvents (s.pollEvents.ret .opening (.ok .this)) := of_eq rfl
    exact (pollEvents s).trans hret
  | connect => exact unlessFailed s v _ (of_eq rfl)

theorem handleEvents (s : State σ ω) (events : List SRTEpollResult) :
    Keeps s (events.foldl State.handleEvent s) := by
  induction events generalizing s with
  | nil => exact refl s
  | cons event events ih => exact (post s _ rfl).trans (ih _)

theorem onEvents (s : State σ ω) (v : ReturnValue) : Keeps s (s.onEvents v) := by
  unfold State.onEvents
  split
  · rename_i events
    have htimer : Keeps (events.foldl State.handleEvent s)
      { events.foldl State.handleEvent s with pollEventsTimer := true } := of_eq rfl
    exact (handleEvents s events).trans htimer
  · exact of_eq rfl

theorem afterListeners (s : State σ ω) {f : Frame} (hf : f.isClosing = false) :
    Keeps s (s.afterListeners f) := by
  cases f with
  | created | disposed | connection | disconnection => exact of_eq rfl
  | opened => exact post s _ rfl
  | data c =>
    refine ⟨?_, fun _ => Or.inl, fun _ => id⟩
    have hmap : (s.connections.modify c SRTServerConnection.afterData).map SRTServerConnection.fd =
        s.connections.map SRTServerConnection.fd := by
      refine List.ext_getElem? fun i => ?_
      rw [List.getElem?_map, List.getElem?_map, List.getElem?_modify]
      cases s.connections[i]? with
      | none => rfl
      | some conn =>
        apply congrArg some
        dsimp only
        split
        · unfold SRTServerConnection.afterData
          split <;> rfl
        · rfl
    simp only [State.afterListeners, hmap]
  | closing c caller | closed c caller v => cases hf

theorem listenerThrew (s : State σ ω) {f : Frame} (hf : f.isClosing = false) :
    Keeps s (s.listenerThrew f) := by
  cases f with
  | created | opened | disposed | connection | disconnection | data c => exact of_eq rfl
  | closing c caller | closed c caller v => cases hf

end Keeps

/-- What a step may do to the connections. -/
inductive Serves (s : State σ ω) (e : Event ω) : State σ ω → Prop
  | keeps {t : State σ ω} (h : Keeps s t) : Serves s e t
  | connects {u : State σ ω} {fd : Slot} (h : Keeps s u) (he : e = .resume)
      (hc : s.connecting = some fd) : Serves s e (u.connect fd)
  | closes {u : State σ ω} {c : ℕ} {caller : CloseCaller} (h : Keeps s u)
      (hclosed : ∀ conn ∈ u.connections, conn.isClosed = true)
      (hc : c < u.connections.length ∨ ∃ fd, u.lookup fd = some c) (hn : ¬ ClosesNone s e) :
      Serves s e (u.closeConnection c caller)
  | disconnects {u : State σ ω} {fd : ℤ} (h : Keeps s u)
      (hx : ∃ x ∈ s.microtasks, x.1.ofClose = true) :
      Serves s e (u.emit (.disconnection fd) .disconnection)

theorem Wired.serves_onStatus (h : Wired s) {event : SRTEpollResult} {status : ReturnValue}
    {rest : List (Await × Except Failure ReturnValue)}
    (hq : s.microtasks = (.handling (.getSockState event), .ok status) :: rest) :
    Serves s .resume ({ s with microtasks := rest }.onStatus event status) := by
  have hpop := Keeps.pop hq
  unfold State.onStatus
  split
  · split
    · exact .keeps (hpop.trans (.post _ _ rfl))
    · exact .keeps hpop
  rename_i hsock
  split
  · rename_i hbroken
    split
    · rename_i c hc
      refine .closes hpop h.closed (Or.inr ⟨_, hc⟩) ?_
      have hcond : s.socket ≠ .number event.socket ∧ State.brokenOrClosed status = true :=
        ⟨hsock, hbroken⟩
      have hlook : s.lookup (.number event.socket) = some c := hc
      simp [ClosesNone, State.disconnecting, hq, hcond, hlook]
    · exact .keeps hpop
  · split
    · exact .keeps (hpop.trans (.emit _ (by simp) _))
    · exact .keeps (hpop.trans (.of_eq rfl))

theorem Wired.serves_resume (h : Wired s) {a : Await} {r : Except Failure ReturnValue}
    {rest : List (Await × Except Failure ReturnValue)} (hq : s.microtasks = (a, r) :: rest) :
    Serves s .resume ({ s with microtasks := rest }.resume a r) := by
  have hpop := Keeps.pop hq
  have hmem : a ∈ s.awaits := List.mem_append_left _ (by simp [hq])
  cases a with
  | create =>
    cases r with
    | ok v =>
      have hset : Keeps { s with microtasks := rest }
        { s with microtasks := rest, socket := .ofReply v } := .of_eq rfl
      exact .keeps ((hpop.trans hset).trans (.emit _ (by simp) _))
    | error e => exact .keeps (hpop.trans (.of_eq rfl))
  | disposeClose =>
    cases r with
    | ok v => exact .keeps (hpop.trans (.disposeAsync _))
    | error e => exact .keeps (hpop.trans (.of_eq rfl))
  | disposeAsync =>
    cases r with
    | ok v =>
      have hset : Keeps { s with microtasks := rest }
        { s with microtasks := rest, socket := .null } := .of_eq rfl
      exact .keeps ((hpop.trans hset).trans (.emitDisposed _))
    | error e => exact .keeps (hpop.trans (.of_eq rfl))
  | opening step =>
    cases r with
    | ok v => exact .keeps (hpop.trans (.resumeOpen _ v step))
    | error e => exact .keeps (hpop.trans (.of_eq rfl))
  | epollUWait =>
    cases r with
    | ok v => exact .keeps (hpop.trans (.onEvents _ v))
    | error e => exact .keeps (hpop.trans (.of_eq rfl))
  | handling step =>
    cases r with
    | error e => exact .keeps (hpop.trans (.of_eq rfl))
    | ok v =>
      cases step with
      | getSockState event => exact h.serves_onStatus hq
      | accept => exact .keeps (hpop.trans (.post _ _ rfl))
      | epollAddUsock fd => exact .connects hpop rfl (by simp [State.connecting, hq])
      | close fd => exact .disconnects hpop ⟨_, by rw [hq]; exact List.mem_cons_self, rfl⟩
  | closing c caller =>
    have hwait := h.waits _ hmem
    cases hwait

theorem Wired.serves {sync : SyncSRT σ ω} {p : Config} (h : Wired s) {e : Event ω}
    (he : Enabled s e) : Serves s e (next sync p s e) := by
  have hset : ∀ async, Keeps s (s.setAsync async) := fun _ => .of_eq rfl
  cases e with
  | create => exact .keeps (.create s)
  | opening => exact .keeps (.openSocket s p)
  | dispose => exact .keeps (.dispose s p)
  | closeConnection c => exact .closes (.refl s) h.closed (Or.inl he) id
  | listenerReturn threw =>
    obtain ⟨f, rest, hq⟩ := List.exists_cons_of_ne_nil he
    have hf : f.isClosing = false := h.frames f (hq ▸ List.mem_cons_self)
    have hpop : Keeps s { s with stack := rest } := .of_eq rfl
    simp only [next, hq]
    split
    · exact .keeps (hpop.trans (.listenerThrew _ hf))
    · exact .keeps (hpop.trans (.afterListeners _ hf))
  | resume =>
    obtain ⟨⟨a, r⟩, rest, hq⟩ := List.exists_cons_of_ne_nil he.2
    have hstep := h.serves_resume hq
    simpa only [next, hq] using hstep
  | resumeDispose => exact .keeps ((hset _).trans (.awaitDisposed _ _))
  | exec => exact .keeps (.of_eq rfl)
  | deliver =>
    obtain ⟨q, ks, v, e, _, _, _, _, hrep⟩ := h.deliver_eq he.2
    have hwaiter : q.1.waiter.ofClose = false := by
      obtain ⟨p', hp', o, hw, _⟩ := hrep
      have hm := h.matched p' hp'
      rw [hw] at hm
      revert hm
      cases q.1.waiter with
      | handling step => cases step <;> first | exact fun _ => rfl | exact fun hm => by cases hm
      | _ => exact fun _ => rfl
    simp only [next, e]
    exact .keeps ((hset _).trans (.wake _ hwaiter _))
  | pollTimer =>
    have hfire : Keeps s { s with pollEventsTimer := false } := .of_eq rfl
    exact .keeps (hfire.trans (.pollEvents _))
  | pollDispose => exact .keeps (hset _)
  | exited code => exact .keeps ((hset _).trans (.awaitDisposed _ _))
  | env w => exact .keeps (.of_eq rfl)

/-! ## The map lists every connection -/

structure Listing (s : State σ ω) : Prop where
  map : s.connectionMap = (s.connections.map SRTServerConnection.fd).zipIdx
  accepted : ∀ conn ∈ s.connections, ∃ fd, conn.fd = .number fd ∧ fd ≠ SRT_ERROR
  calls : ∀ c ∈ s.closeCalls, c < s.connections.length
  microtasks : ∀ x ∈ s.microtasks, x.1.ofClose = true → s.closeCalls ≠ []
  log : ∀ fd, .disconnection fd ∈ s.log → s.closeCalls ≠ []

theorem initial_listing (n : σ) : Listing (initial n : State σ ω) := by
  constructor <;> simp [initial]

theorem mem_getAllConnections {c : ℕ} :
    c ∈ s.getAllConnections ↔ c ∈ s.connectionMap.map Prod.snd := by
  have hperm := List.filter_append_perm (fun e : JSValue × ℕ => (State.arrayIndex e.1).isSome)
    s.connectionMap
  simp only [State.getAllConnections, List.partition_eq_filter_filter, List.map_append,
    List.mem_append, List.mem_map, List.mem_insertionSort]
  simp only [← hperm.mem_iff, List.mem_append, or_and_right, exists_or]
  rfl

namespace Listing

theorem mem_getAllConnections (h : Listing s) {c : ℕ} :
    c ∈ s.getAllConnections ↔ c < s.connections.length := by
  rw [SocketAsync.mem_getAllConnections, h.map, List.zipIdx_map_snd, List.mem_range']
  simp

theorem keeps (h : Listing s) (k : Keeps s t) : Listing t := by
  have hf := k.fields
  simp only [Prod.mk.injEq] at hf
  obtain ⟨hfds, hmap, hcalls⟩ := hf
  have hlength : t.connections.length = s.connections.length := by
    simpa using congrArg List.length hfds
  refine ⟨by rw [hmap, hfds, h.map], ?_, ?_, ?_, ?_⟩
  · intro conn hconn
    have hmem : conn.fd ∈ s.connections.map SRTServerConnection.fd :=
      hfds ▸ List.mem_map_of_mem hconn
    obtain ⟨conn', hconn', he⟩ := List.mem_map.mp hmem
    exact he ▸ h.accepted conn' hconn'
  · rw [hcalls, hlength]
    exact h.calls
  · rw [hcalls]
    intro x hx hclose
    rcases k.microtasks x hx with hx | hx
    · exact h.microtasks x hx hclose
    · rw [hx] at hclose
      cases hclose
  · rw [hcalls]
    exact fun fd hm => h.log fd (k.log fd hm)

theorem connects (h : Listing s) {fd : Slot} (hfd : fd ∉ [.null, .undefined, .number SRT_ERROR])
    (hl : s.lookup fd.toValue = none) : Listing (s.connect fd) := by
  obtain ⟨n, rfl, hn⟩ : ∃ n, fd = .number n ∧ n ≠ SRT_ERROR := by
    cases fd with
    | null | undefined => simp at hfd
    | number n => exact ⟨n, rfl, by simpa using hfd⟩
  have hmap : (s.connect (.number n)).connectionMap =
      s.connectionMap ++ [(.number n, s.connections.length)] := by
    simp only [State.connect, State.setConnection, hl]
    rfl
  refine ⟨?_, ?_, ?_, h.microtasks, ?_⟩
  · rw [hmap, h.map]
    simp [State.connect, State.emit, List.zipIdx_append, SRTServerConnection.construct,
      Slot.toValue]
  · intro conn hconn
    rcases List.mem_append.mp hconn with hconn | hconn
    · exact h.accepted conn hconn
    · rw [List.mem_singleton.mp hconn]
      exact ⟨n, rfl, hn⟩
  · intro c hc
    have hlt := h.calls c hc
    simp only [State.connect, State.emit, List.length_append]
    omega
  · intro fd hm
    rcases List.mem_append.mp hm with hm | hm
    · exact h.log fd hm
    · simp at hm

/-- Closing a connection records the call and answers `null`. -/
theorem closes (h : Listing s) (hclosed : ∀ conn ∈ s.connections, conn.isClosed = true) {c : ℕ}
    (hc : c < s.connections.length) (caller : CloseCaller) :
    Listing (s.closeConnection c caller) ∧ (s.closeConnection c caller).closeCalls ≠ [] := by
  have e : s.closeConnection c caller =
      { s with closeCalls := s.closeCalls ++ [c] }.closeReturn c (.ok .null) caller := by
    simp [State.closeConnection, List.getElem?_eq_getElem hc,
      hclosed _ (List.getElem_mem hc)]
  have hcalls : ∀ d ∈ s.closeCalls ++ [c], d < s.connections.length := by
    intro d hd
    rcases List.mem_append.mp hd with hd | hd
    · exact h.calls d hd
    · rwa [List.mem_singleton.mp hd]
  have hne : s.closeCalls ++ [c] ≠ [] := by simp
  rw [e]
  cases caller with
  | user => exact ⟨⟨h.map, h.accepted, hcalls, fun _ _ _ => hne, fun _ _ => hne⟩, hne⟩
  | handler fd => exact ⟨⟨h.map, h.accepted, hcalls, fun _ _ _ => hne, fun _ _ => hne⟩, hne⟩

theorem lookup_lt (h : Listing s) {fd : JSValue} {c : ℕ} (hc : s.lookup fd = some c) :
    c < s.connections.length := by
  have hmem : c ∈ s.connectionMap.map Prod.snd := by
    obtain ⟨l, r, he, _⟩ := List.lookup_eq_some_iff.mp hc
    rw [he]
    simp
  exact h.mem_getAllConnections.mp (SocketAsync.mem_getAllConnections.mpr hmem)

theorem step (h : Listing s) {e : Event ω} (hs : Serves s e t) (hn : NewFd s e) : Listing t := by
  cases hs with
  | keeps k => exact h.keeps k
  | @connects u fd k he hc =>
    subst he
    have hf := k.fields
    simp only [Prod.mk.injEq] at hf
    obtain ⟨hfd, hl⟩ := hn fd (by simp [hc])
    refine (h.keeps k).connects hfd ?_
    rw [State.lookup, hf.2.1]
    exact hl
  | closes k hclosed hc _ =>
    have hlt := hc.elim id fun ⟨_, hc⟩ => (h.keeps k).lookup_lt hc
    exact ((h.keeps k).closes hclosed hlt _).1
  | @disconnects u fd k hx =>
    obtain ⟨x, hx, hclose⟩ := hx
    have hf := k.fields
    simp only [Prod.mk.injEq] at hf
    have hne : u.closeCalls ≠ [] := hf.2.2 ▸ h.microtasks x hx hclose
    have hu := h.keeps k
    exact { hu with log := fun _ _ => hne }

end Listing

/-- Only the disposal closes a socket, and it closes one. -/
theorem Case.closesPosted {sync : SyncSRT σ ω} {e : Event ω} (h : Case sync s e t) (hw : Wired s)
    (hone : s.closesPosted ≤ 1) : t.closesPosted ≤ 1 := by
  have hsame : ∀ {u : State σ ω}, Moves s u → u.closesPosted = s.closesPosted := by
    intro u hm
    obtain ⟨ps, hps, hno⟩ := hm.ordinary.posted
    have hz : ps.countP (fun q => decide (q.2.method = .close)) = 0 := by
      simpa using fun a b hab => (hno (a, b) hab).2
    rw [State.closesPosted, hps, List.countP_append, hz]
    rfl
  cases h with
  | moves hm => exact (hsame hm).le.trans hone
  | creates _ _ =>
    simpa [State.closesPosted, State.setAsync, AsyncSRT.accept, AsyncSRT.prepare, ApiCall.post]
      using hone
  | @closes u hm _ hd =>
    have hzero : u.closesPosted = 0 := by
      rw [State.closesPosted, List.countP_eq_zero]
      intro q hq hclose
      have hstart := hm.wired.closes q hq (by simpa using hclose)
      simp [hd] at hstart
    rcases (simple_close u.socket).accepts_or_refused u.asyncSrt.async with hacc | href
    · rw [post_of_accepts (s := { u with startedToDispose := true, disposal := .closing })
        hm.wired.invariant (simple_close _) hacc]
      change (u.asyncSrt.async.posted ++ [_]).countP _ ≤ 1
      rw [List.countP_append]
      change u.closesPosted + _ ≤ 1
      rw [hzero, Nat.zero_add]
      exact List.countP_le_length
    · obtain ⟨r, e, _⟩ := post_of_refused
        (s := { u with startedToDispose := true, disposal := .closing })
        (simple_close u.socket) href .disposeClose
      rw [e]
      exact hzero.le.trans (Nat.zero_le 1)
  | @closed rest v hq =>
    have hwp : Wired { s with microtasks := rest } := hw.pop hq
    have hf := hwp.disposeAsync_frame.1
    simp only [Prod.mk.injEq] at hf
    simpa [State.closesPosted, hf] using hone
  | phase hsame _ _ =>
    simp only [Prod.mk.injEq] at hsame
    simpa [State.closesPosted, State.setAsync, hsame] using hone
  | vacuous hm _ _ => exact (hsame hm).le.trans hone
  | refuses | created | disposed | fails | finishes | throws | executes | exits | env => exact hone

/-! ## What the server promises of disconnects -/

variable {sync : SyncSRT σ ω} {p : Config} {n : σ}

theorem execution_listing (h : ((machine sync p).restrict NewFd).Execution (initial n) s) :
    Wired s ∧ Listing s ∧ s.closesPosted ≤ 1 := by
  refine h.invariant (I := fun s => Wired s ∧ Listing s ∧ s.closesPosted ≤ 1)
    ⟨initial_wired n, initial_listing n, Nat.zero_le 1⟩ fun u e hu he => ?_
  obtain ⟨hw, hl, hone⟩ := hu
  obtain ⟨hw', hc⟩ := step_cases hw he.1
  exact ⟨hw', hl.step (hw.serves he.1) he.2, hc.closesPosted hw hone⟩

/-- The promise is broken by the first close of a connection, and by nothing else. -/
theorem handledOnce_iff (h : ((machine sync p).restrict NewFd).Execution (initial n) s) :
    HandledOnce s ↔ s.closeCalls = [] := by
  obtain ⟨_, hl, hone⟩ := execution_listing h
  have hlisted : ∀ c, s.Accepted c ↔ c ∈ s.getAllConnections := by
    intro c
    rw [hl.mem_getAllConnections]
    constructor
    · rintro ⟨conn, hc, _⟩
      exact (List.getElem?_eq_some_iff.mp hc).1
    · intro hc
      exact ⟨_, List.getElem?_eq_getElem hc, hl.accepted _ (List.getElem_mem hc)⟩
  constructor
  · intro hh
    by_contra hne
    obtain ⟨c, hc⟩ := List.exists_mem_of_ne_nil _ hne
    have hmem := hl.mem_getAllConnections.mpr (hl.calls c hc)
    exact ((hh.listed c).mp hmem).2 hc
  · intro hnil
    have hsilent : ∀ fd, .disconnection fd ∉ s.log := fun fd hm => hl.log fd hm hnil
    refine ⟨fun fd => ?_, fun fd => ?_, fun fd hm => absurd hm (hsilent fd), fun c => ?_⟩
    · rw [List.count_eq_zero_of_not_mem (hsilent fd)]
      exact Nat.zero_le 1
    · refine le_trans (List.countP_mono_left fun q _ hq => ?_) hone
      simp only [decide_eq_true_eq] at hq ⊢
      rw [hq]
      rfl
    · rw [hnil, hlisted]
      simp

/-- While no connection is closed, the server keeps its promise. -/
theorem disconnects_handled_once
    (h : (((machine sync p).restrict NewFd).restrict ClosesNone).Execution (initial n) s) :
    HandledOnce s := by
  have hnone : Wired s ∧ Listing s ∧ s.closeCalls = [] := by
    refine h.invariant (I := fun s => Wired s ∧ Listing s ∧ s.closeCalls = [])
      ⟨initial_wired n, initial_listing n, rfl⟩ fun u e hu he => ?_
    obtain ⟨hw, hl, hnil⟩ := hu
    have hs : Serves u e (next sync p u e) := hw.serves he.1.1
    refine ⟨step_wired hw he.1.1, hl.step hs he.1.2, ?_⟩
    have hcalls : ∀ {v}, Keeps u v → v.closeCalls = [] := by
      intro v k
      have hf := k.fields
      simp only [Prod.mk.injEq] at hf
      exact hf.2.2.trans hnil
    show (next sync p u e).closeCalls = []
    generalize next sync p u e = t at hs ⊢
    cases hs with
    | keeps k => exact hcalls k
    | connects k _ _ | disconnects k _ =>
      have hnil' := hcalls k
      exact hnil'
    | closes _ _ _ hn => exact absurd he.2 hn
  exact (handledOnce_iff h.of_restrict).mpr hnone.2.2

/-- One client is accepted; its socket has the id 2. -/
def acceptRun : List (Event TableEvent) :=
  openRun ++ [.env (.clientArrives 1)] ++ answer ++ answer ++ answer ++ answer ++
    [.listenerReturn false]

theorem disconnects_handled_once_accepted :
    HandledOnce (serverMachine.runTrace (initial .empty) acceptRun) := by
  have h : ((serverMachine.restrict NewFd).restrict ClosesNone).Execution (initial .empty) _ :=
    Machine.execution_of_trace _ _ acceptRun (by decide)
  rw [Machine.runTrace_restrict, Machine.runTrace_restrict] at h
  exact disconnects_handled_once h

/-- A poll round, in which the handler of the broken socket runs to its end. -/
def pollBroken : List (Event TableEvent) :=
  [.pollTimer] ++ answer ++ answer ++ [.resume, .listenerReturn false]

theorem disconnect_handled_twice :
    ¬ ∀ s : State Table TableEvent, serverMachine.Execution (initial .empty) s →
      HandledOnce s := by
  intro h
  have hr := serverMachine.execution_of_trace (initial .empty)
    (acceptRun ++ [.env (.connectionBreaks 2)] ++ pollBroken ++ pollBroken) (by decide)
  have htwice := (h _ hr).emitted 2
  exact absurd htwice (by decide)

end SocketAsync
