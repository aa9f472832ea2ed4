import Mathlib.Data.List.Sort
import NodeSrt.NativeSrtTable
import NodeSrt.ServerConnection

/-! # SRTSocketAsync and its two subclasses

`srt-socket-async.ts` with the `_open` of `srt-client.ts` and all of `SRTServer`. An async
function is cut at its awaits. What an await is for is the waiter of the call it awaits;
when the reply is delivered a microtask resumes the function there. Events are emitted
synchronously: while listeners run, the rest of the emitting function is on `stack`. The user
calls `create`, `open`, `dispose` and `close` of the connections; nothing else is posted with the
object's AsyncSRT: no `read`, `write` or `setSocketFlags`. -/
namespace SocketAsync

open AsyncValues
open TransitionSystem
open AsyncApi
open NativeSrt
open ServerConnection (SRTServerConnection)

inductive Kind where
  | server | client
  deriving DecidableEq, Repr

structure Config where
  kind : Kind
  port : ℤ
  address : JSString
  deriving DecidableEq, Repr

/-- A variable that holds an id, `null` before it has one. The native calls that hand out
ids reply with numbers; what is awaited of a disposing instance is `undefined`. -/
inductive Slot where
  | null | undefined
  | number (n : ℤ)
  deriving DecidableEq, Repr

def Slot.toValue : Slot → JSValue
  | .null => .null
  | .undefined => .undefined
  | .number n => .number n

def Slot.ofReply : ReturnValue → Slot
  | .number n => .number n
  | _ => .undefined

/-! ## Errors -/

inductive SocketError where
  | createTwice | noSocket | bindFailed | listenFailed | epollCreateFailed
  | connectFailed | alreadyDisposing
  | notInMap (fd : ℤ)
  deriving DecidableEq, Repr

def SocketError.message (p : Config) : SocketError → JSString
  | .createTwice => ascii "Can not call createSocket() twice, with socket already existing"
  | .noSocket => ascii "No socket created, did you call create() before?"
  | .bindFailed => ascii "SRT.bind() failed"
  | .listenFailed =>
    ascii "SRT.listen() failed on " ++ p.address ++ ascii ":" ++ ascii (toString p.port)
  | .epollCreateFailed => ascii "SRT.epollCreate() failed"
  | .connectFailed => ascii "SRT.connect() failed"
  | .alreadyDisposing => ascii "SRTClientConnection:: open:: already started to dispose"
  | .notInMap fd =>
    ascii "SRTEpollEvent: fd " ++ ascii (toString fd) ++ ascii " not in connections map\""

inductive Failure where
  | socket (e : SocketError)
  | async (e : AsyncError)
  | listener | typeError
  deriving DecidableEq, Repr

/-! ## Where functions stand -/

inductive OpenStep where
  | bind | listen | epollCreate | epollAddUsock | connect
  deriving DecidableEq, Repr

inductive HandleStep where
  | getSockState (event : SRTEpollResult)
  | accept
  | epollAddUsock (fd : Slot)
  | close (fd : ℤ)
  deriving DecidableEq, Repr

/-- Who called `close` of a connection: the user, or the handler of an event of its fd. -/
inductive CloseCaller where
  | user
  | handler (fd : ℤ)
  deriving DecidableEq, Repr

/-- An await, named by its function and by what it awaits. -/
inductive Await where
  | create
  | disposeClose | disposeAsync
  | opening (step : OpenStep)
  | epollUWait
  | handling (step : HandleStep)
  | closing (c : ℕ) (caller : CloseCaller)
  deriving DecidableEq, Repr

/-- The worker method an await is for; the other awaits are for functions of the library. -/
def Await.method : Await → Option Method
  | .create => some .createSocket
  | .disposeClose | .closing _ _ => some .close
  | .opening .bind => some .bind
  | .opening .listen => some .listen
  | .opening .epollCreate => some .epollCreate
  | .opening .epollAddUsock | .handling (.epollAddUsock _) => some .epollAddUsock
  | .opening .connect => some .connect
  | .epollUWait => some .epollUWait
  | .handling (.getSockState _) => some .getSockState
  | .handling .accept => some .accept
  | .disposeAsync | .handling (.close _) => none

/-- An emit whose listeners are running. Connections are numbered as they are made. -/
inductive Frame where
  | created | opened | connection | disconnection | disposed
  | data (c : ℕ)
  | closing (c : ℕ) (caller : CloseCaller)
  | closed (c : ℕ) (caller : CloseCaller) (result : ReturnValue)
  deriving DecidableEq, Repr

inductive Emission where
  | created | opened | disposed
  | connection (c : ℕ)
  | disconnection (fd : ℤ)
  | ofConnection (c : ℕ) (e : ServerConnection.Emission)
  deriving DecidableEq, Repr

inductive Call where
  | create | opening | dispose
  | close (c : ℕ)
  deriving DecidableEq, Repr

inductive CallValue where
  | this
  | value (v : ReturnValue)
  deriving DecidableEq, Repr

inductive DisposeStage where
  | notCalled | closing | disposing | emitting | finished | failed
  deriving DecidableEq, Repr

/-- The fields of the object, its AsyncSRT with the native object of the worker, the
control points, and the history of the run. A timer that has fired or was cleared is as
good as none. -/
structure State (σ ω : Type*) where
  asyncSrt : Backed σ ω Await
  socket : Slot
  startedToDispose : Bool
  epid : Slot
  pollEventsTimer : Bool
  connections : List (SRTServerConnection Unit)
  connectionMap : List (JSValue × ℕ)
  disposal : DisposeStage
  stack : List Frame
  microtasks : List (Await × Except Failure ReturnValue)
  log : List Emission
  createCalls : ℕ
  closeCalls : List ℕ
  returns : List (Call × Except Failure CallValue)
  unhandled : List Failure

variable {σ ω : Type*}

def initial (n : σ) : State σ ω where
  asyncSrt := .initial n
  socket := .null
  startedToDispose := false
  epid := .null
  pollEventsTimer := false
  connections := []
  connectionMap := []
  disposal := .notCalled
  stack := []
  microtasks := []
  log := []
  createCalls := 0
  closeCalls := []
  returns := []
  unhandled := []

namespace State

def setAsync (s : State σ ω) (async : AsyncSRT Await) : State σ ω :=
  { s with asyncSrt := { s.asyncSrt with async := async } }

def emit (s : State σ ω) (e : Emission) (frame : Frame) : State σ ω :=
  { s with log := s.log ++ [e], stack := frame :: s.stack }

def ret (s : State σ ω) (call : Call) (r : Except Failure CallValue) : State σ ω :=
  { s with returns := s.returns ++ [(call, r)] }

def reject (s : State σ ω) (e : Failure) : State σ ω :=
  { s with unhandled := s.unhandled ++ [e] }

def wake (s : State σ ω) (a : Await) (r : Except Failure ReturnValue) : State σ ω :=
  { s with microtasks := s.microtasks ++ [(a, r)] }

def wakeSettled (s : State σ ω) (a : Await) : Settlement → State σ ω
  | .pending => s
  | .fulfilled v => s.wake a (.ok v)
  | .rejected e => s.wake a (.error (.async e))

/-- `await this.asyncSrt.method(...)`. Awaiting what is no pending promise takes a
microtask as well. -/
def post (s : State σ ω) (c : ApiCall) (a : Await) : State σ ω :=
  let r := s.asyncSrt.async.apiCall c false a
  let s := s.setAsync r.1
  match r.2 with
  | .promise k => s.wakeSettled a (r.1.promise k)
  | .undefined => s.wake a (.ok .undefined)
  | .rejectedPromise e | .threw e => s.wake a (.error (.async e))

/-! ## SRTSocketAsync -/

def create (s : State σ ω) : State σ ω :=
  let s := { s with createCalls := s.createCalls + 1 }
  if s.socket ≠ .null then s.ret .create (.error (.socket .createTwice))
  else if s.startedToDispose then s.ret .create (.ok (.value .null))
  else s.post (.createSocket .undefined) .create

def clearTimers (s : State σ ω) : State σ ω := { s with pollEventsTimer := false }

def emitDisposed (s : State σ ω) : State σ ω :=
  { s with disposal := .emitting }.emit .disposed .disposed

/-- `dispose`, which a server overrides to clear its timers first. -/
def dispose (p : Config) (s : State σ ω) : State σ ω :=
  let s := if p.kind = .server then s.clearTimers else s
  if s.startedToDispose then s.ret .dispose (.ok (.value .undefined))
  else
    let s := { s with startedToDispose := true }
    if s.socket ≠ .null then
      { s with disposal := .closing }.post (.close s.socket.toValue) .disposeClose
    else s.emitDisposed

/-- The promise of `AsyncSRT.dispose` settles when the worker has exited. It is settled
at once where there is nothing to wait for. -/
def awaitDisposed (s : State σ ω) (started : Bool) : State σ ω :=
  if started ∨ s.asyncSrt.async.disposing = .finished then
    s.wake .disposeAsync (.ok .undefined)
  else s

def disposeAsync (s : State σ ω) : State σ ω :=
  { s.setAsync s.asyncSrt.async.dispose with disposal := .disposing }.awaitDisposed
    s.asyncSrt.async.startedToDispose

def failDispose (s : State σ ω) (e : Failure) : State σ ω :=
  { s with disposal := .failed }.ret .dispose (.error e)

/-! ## Opening -/

def SOCKET_LISTEN_BACKLOG_SIZE : ℤ := 0xFFFF

def EPOLLUWAIT_TIMEOUT_MS : ℤ := 0

/-- `_open` up to its first await. -/
def doOpen (p : Config) (s : State σ ω) : State σ ω :=
  match p.kind with
  | .server =>
    s.post (.bind s.socket.toValue (.string p.address) (.number p.port)) (.opening .bind)
  | .client =>
    if s.socket = .null ∨ s.startedToDispose then
      s.ret .opening (.error (.socket .alreadyDisposing))
    else
      s.post (.connect s.socket.toValue (.string p.address) (.number p.port)) (.opening .connect)

def openSocket (p : Config) (s : State σ ω) : State σ ω :=
  if s.socket = .null then s.ret .opening (.error (.socket .noSocket))
  else if s.startedToDispose then s.ret .opening (.ok (.value .null))
  else s.doOpen p

/-- `epollAddUsock(this._epid!, socket, SRTEpollOpt.SRT_EPOLL_IN | SRTEpollOpt.SRT_EPOLL_ERR)` -/
def subscribe (s : State σ ω) (socket : Slot) (a : Await) : State σ ω :=
  s.post (.epollAddUsock s.epid.toValue socket.toValue (.number (SRT_EPOLL_IN + SRT_EPOLL_ERR))) a

/-- `_pollEvents` up to its await. -/
def pollEvents (s : State σ ω) : State σ ω :=
  if s.epid = .number 0 ∨ s.asyncSrt.async.startedToDispose then s.clearTimers
  else s.post (.epollUWait s.epid.toValue (.number EPOLLUWAIT_TIMEOUT_MS)) .epollUWait

def unlessFailed (s : State σ ω) (v : ReturnValue) (e : SocketError) (t : State σ ω) : State σ ω :=
  if v = .number SRT_ERROR then s.ret .opening (.error (.socket e)) else t

/-- `_open` after an await. `_pollEvents` is started, not awaited. -/
def resumeOpen (s : State σ ω) (v : ReturnValue) : OpenStep → State σ ω
  | .bind =>
    s.unlessFailed v .bindFailed <|
      s.post (.listen s.socket.toValue (.number SOCKET_LISTEN_BACKLOG_SIZE)) (.opening .listen)
  | .listen => s.unlessFailed v .listenFailed <| s.post .epollCreate (.opening .epollCreate)
  | .epollCreate =>
    s.unlessFailed v .epollCreateFailed <| { s with epid := .ofReply v }.emit .opened .opened
  | .epollAddUsock => s.pollEvents.ret .opening (.ok .this)
  | .connect => s.unlessFailed v .connectFailed <| s.ret .opening (.ok .this)

/-! ## Connections -/

def lookup (s : State σ ω) (fd : JSValue) : Option ℕ := s.connectionMap.lookup fd

/-- A key that is an array index comes before the others, in ascending order. -/
def arrayIndex : JSValue → Option ℕ
  | .number n => if 0 ≤ n ∧ n < 0xFFFFFFFF then some n.toNat else none
  | _ => none

/-- `Array.from(Object.values(this._connectionMap))` -/
def getAllConnections (s : State σ ω) : List ℕ :=
  let (indices, names) := s.connectionMap.partition fun e => (arrayIndex e.1).isSome
  let ascending := indices.insertionSort fun a b =>
    (arrayIndex a.1).getD 0 ≤ (arrayIndex b.1).getD 0
  (ascending ++ names).map Prod.snd

/-- `_connectionMap[fd] = connection` and `delete _connectionMap[fd]` -/
def setConnection (s : State σ ω) (fd : JSValue) (c : ℕ) : State σ ω :=
  { s with connectionMap :=
      match s.lookup fd with
      | none => s.connectionMap ++ [(fd, c)]
      | some _ => s.connectionMap.map fun e => if e.1 = fd then (fd, c) else e }

def deleteConnection (s : State σ ω) (fd : JSValue) : State σ ω :=
  { s with connectionMap := s.connectionMap.filter (·.1 ≠ fd) }

def closeReturn (s : State σ ω) (c : ℕ) (r : Except Failure ReturnValue) : CloseCaller → State σ ω
  | .user => s.ret (.close c) (r.map .value)
  | .handler fd => s.wake (.handling (.close fd)) r

/-- `SRTServerConnection.close` up to the listeners of `closing`, of which the server's own
comes first. -/
def closeConnection (s : State σ ω) (c : ℕ) (caller : CloseCaller) : State σ ω :=
  let s := { s with closeCalls := s.closeCalls ++ [c] }
  match s.connections[c]? with
  | none => s
  | some conn =>
    if conn.isClosed then s.closeReturn c (.ok .null) caller
    else
      { s.deleteConnection conn.fd with
        connections := s.connections.set c { conn with asyncSrt := none } }.emit
        (.ofConnection c .closing) (.closing c caller)

/-- `close` after the listeners of `closing`. -/
def postClose (s : State σ ω) (c : ℕ) (caller : CloseCaller) : State σ ω :=
  match s.connections[c]? with
  | none => s
  | some conn => s.post (.close conn.fd) (.closing c caller)

/-! ## Polling -/

/-- `_handleEvent` up to its first await. -/
def handleEvent (s : State σ ω) (event : SRTEpollResult) : State σ ω :=
  s.post (.getSockState (.number event.socket)) (.handling (.getSockState event))

/-- `_pollEvents` after its await. -/
def onEvents (s : State σ ω) : ReturnValue → State σ ω
  | .epollResults events => { events.foldl handleEvent s with pollEventsTimer := true }
  | _ => s.reject .typeError

def brokenOrClosed (status : ReturnValue) : Bool :=
  status = .number SRTS_BROKEN || status = .number SRTS_NONEXIST || status = .number SRTS_CLOSED

/-- `_handleEvent` when the state of the socket is known. -/
def onStatus (s : State σ ω) (event : SRTEpollResult) (status : ReturnValue) : State σ ω :=
  if s.socket = .number event.socket then
    if status = .number SRTS_LISTENING then
      s.post (.accept s.socket.toValue false DEFAULT_PROMISE_TIMEOUT_MS) (.handling .accept)
    else s
  else if brokenOrClosed status then
    match s.lookup (.number event.socket) with
    | some c => s.closeConnection c (.handler event.socket)
    | none => s
  else
    match s.lookup (.number event.socket) with
    | some c => s.emit (.ofConnection c .data) (.data c)
    | none => s.reject (.socket (.notInMap event.socket))

def connect (s : State σ ω) (fd : Slot) : State σ ω :=
  let c := s.connections.length
  { s.setConnection fd.toValue c with
    connections := s.connections ++ [SRTServerConnection.construct () fd.toValue] }.emit
      (.connection c) .connection

/-- `_handleEvent` after an await. -/
def resumeHandle (s : State σ ω) (v : ReturnValue) : HandleStep → State σ ω
  | .getSockState event => s.onStatus event v
  | .accept => s.subscribe (.ofReply v) (.handling (.epollAddUsock (.ofReply v)))
  | .epollAddUsock fd => s.connect fd
  | .close fd => s.emit (.disconnection fd) .disconnection

/-! ## Control -/

def resume (s : State σ ω) : Await → Except Failure ReturnValue → State σ ω
  | .create, .ok v => { s with socket := .ofReply v }.emit .created .created
  | .create, .error e => s.ret .create (.error e)
  | .disposeClose, .ok _ => s.disposeAsync
  | .disposeAsync, .ok _ => { s with socket := .null }.emitDisposed
  | .disposeClose, .error e | .disposeAsync, .error e => s.failDispose e
  | .opening step, .ok v => s.resumeOpen v step
  | .opening _, .error e => s.ret .opening (.error e)
  | .epollUWait, .ok v => s.onEvents v
  | .handling step, .ok v => s.resumeHandle v step
  | .epollUWait, .error e | .handling _, .error e => s.reject e
  | .closing c caller, .ok v => s.emit (.ofConnection c (.closed v)) (.closed c caller v)
  | .closing c caller, .error e => s.closeReturn c (.error e) caller

/-- An emitting function goes on when the listeners have returned. -/
def afterListeners (s : State σ ω) : Frame → State σ ω
  | .created => s.ret .create (.ok .this)
  | .opened => s.subscribe s.socket (.opening .epollAddUsock)
  | .disposed => { s with disposal := .finished }.ret .dispose (.ok (.value .undefined))
  | .connection | .disconnection => s
  | .data c => { s with connections := s.connections.modify c SRTServerConnection.afterData }
  | .closing c caller => s.postClose c caller
  | .closed c caller v => s.closeReturn c (.ok v) caller

/-- An error of a listener ends the emitting function. -/
def listenerThrew (s : State σ ω) : Frame → State σ ω
  | .created => s.ret .create (.error .listener)
  | .opened => s.ret .opening (.error .listener)
  | .disposed => s.failDispose .listener
  | .connection | .disconnection | .data _ => s.reject .listener
  | .closing c caller | .closed c caller _ => s.closeReturn c (.error .listener) caller

def deliver (s : State σ ω) : State σ ω :=
  let t := s.setAsync (AsyncApi.next s.asyncSrt.async .deliver)
  match s.asyncSrt.async.workCbQueue with
  | cb :: _ => t.wakeSettled cb.waiter (t.asyncSrt.async.promise cb.call)
  | [] => t

end State

/-- The first four are the user's, who calls nothing else, and may come at any time, also from
listeners. `resume` and `resumeDispose` are microtasks, `exec` and `env` happen in the worker and
in the network, the others are macrotasks. -/
inductive Event (ω : Type*) where
  | create | opening | dispose
  | closeConnection (c : ℕ)
  | listenerReturn (threw : Bool)
  | resume
  | resumeDispose
  | exec
  | deliver
  | pollTimer
  | pollDispose
  | exited (code : ℤ)
  | env (w : ω)

/-- No function is running and no microtask is left. -/
def Idle (s : State σ ω) : Prop :=
  s.stack = [] ∧ s.microtasks = [] ∧ s.asyncSrt.async.disposing ≠ .resuming

def Enabled (s : State σ ω) : Event ω → Prop
  | .create | .opening | .dispose | .env _ => True
  | .closeConnection c => c < s.connections.length
  | .listenerReturn _ => s.stack ≠ []
  | .resume => s.stack = [] ∧ s.microtasks ≠ []
  | .resumeDispose => s.stack = [] ∧ s.asyncSrt.async.disposing = .resuming
  | .exec => s.asyncSrt.async.toWorker ≠ [] ∧ s.asyncSrt.async.disposing ≠ .finished
  | .deliver => Idle s ∧ s.asyncSrt.async.toMain ≠ []
  | .pollTimer => Idle s ∧ s.pollEventsTimer = true
  | .pollDispose => Idle s ∧ s.asyncSrt.async.disposing = .waiting
  | .exited _ => Idle s ∧ s.asyncSrt.async.disposing = .terminating

instance (s : State σ ω) : Decidable (Idle s) := inferInstanceAs (Decidable (_ ∧ _ ∧ _))

instance (s : State σ ω) : (e : Event ω) → Decidable (Enabled s e)
  | .create | .opening | .dispose | .env _ => isTrue trivial
  | .closeConnection c => inferInstanceAs (Decidable (c < s.connections.length))
  | .listenerReturn _ => inferInstanceAs (Decidable (s.stack ≠ []))
  | .resume => inferInstanceAs (Decidable (s.stack = [] ∧ s.microtasks ≠ []))
  | .resumeDispose =>
    inferInstanceAs (Decidable (s.stack = [] ∧ s.asyncSrt.async.disposing = .resuming))
  | .exec => inferInstanceAs (Decidable
      (s.asyncSrt.async.toWorker ≠ [] ∧ s.asyncSrt.async.disposing ≠ .finished))
  | .deliver => inferInstanceAs (Decidable (Idle s ∧ s.asyncSrt.async.toMain ≠ []))
  | .pollTimer => inferInstanceAs (Decidable (Idle s ∧ s.pollEventsTimer = true))
  | .pollDispose => inferInstanceAs (Decidable (Idle s ∧ s.asyncSrt.async.disposing = .waiting))
  | .exited _ => inferInstanceAs (Decidable (Idle s ∧ s.asyncSrt.async.disposing = .terminating))

def next (sync : SyncSRT σ ω) (p : Config) (s : State σ ω) : Event ω → State σ ω
  | .create => s.create
  | .opening => s.openSocket p
  | .dispose => s.dispose p
  | .closeConnection c => s.closeConnection c .user
  | .listenerReturn threw =>
    match s.stack with
    | frame :: rest =>
      let s := { s with stack := rest }
      if threw then s.listenerThrew frame else s.afterListeners frame
    | [] => s
  | .resume =>
    match s.microtasks with
    | (a, r) :: rest => { s with microtasks := rest }.resume a r
    | [] => s
  | .resumeDispose => (s.setAsync s.asyncSrt.async.terminateWorker).awaitDisposed false
  | .exec => { s with asyncSrt := (backedMachine sync Await).next s.asyncSrt .exec }
  | .deliver => s.deliver
  | .pollTimer => { s with pollEventsTimer := false }.pollEvents
  | .pollDispose => s.setAsync (AsyncApi.next s.asyncSrt.async .pollDispose)
  | .exited code =>
    (s.setAsync (AsyncApi.next s.asyncSrt.async (.exited code))).awaitDisposed false
  | .env w => { s with asyncSrt := (backedMachine sync Await).next s.asyncSrt (.env w) }

def machine (sync : SyncSRT σ ω) (p : Config) : Machine (State σ ω) (Event ω) :=
  ⟨Enabled, next sync p⟩

instance (sync : SyncSRT σ ω) (p : Config) (s : State σ ω) (e : Event ω) :
    Decidable ((machine sync p).Enabled s e) := inferInstanceAs (Decidable (Enabled s e))

/-! ## A server over the table -/

def localServer : Config := ⟨.server, 9000, ascii "0.0.0.0"⟩

abbrev serverMachine : Machine (State Table TableEvent) (Event TableEvent) :=
  machine (nodeSRT tableLibsrt) localServer

/-- The worker answers its oldest call, and the function that awaits it goes on. -/
def answer : List (Event TableEvent) := [.exec, .deliver, .resume]

def createRun : List (Event TableEvent) := [.create] ++ answer ++ [.listenerReturn false]

/-- The server is created and opened; its first poll is posted. -/
def openRun : List (Event TableEvent) :=
  createRun ++ [.opening] ++ answer ++ answer ++ answer ++ [.listenerReturn false] ++ answer

def disposeRun : List (Event TableEvent) :=
  [.dispose] ++ answer ++ [.exited 0, .resume, .listenerReturn false]

end SocketAsync
