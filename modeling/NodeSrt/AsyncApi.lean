import NodeSrt.AsyncValues
import NodeSrt.TransitionSystem
import Mathlib.Data.Finset.Card
import Mathlib.Data.Finset.Range
import Mathlib.Logic.Function.Basic

/-! # AsyncSRT

The class of `async-api.ts` with its worker port. Replies carry no call id: a reply is
given to the callback at the head of the queue. Native outcomes are free here; the
worker's native object is added where a result is about values. User code runs between
the macrotasks, and inside the callback of a reply, where it may call the API again. -/
namespace AsyncApi

open AsyncValues
open TransitionSystem

inductive Settlement where
  | pending
  | fulfilled (v : ReturnValue)
  | rejected (e : AsyncError)
  deriving DecidableEq, Repr

/-- The `onResult` closure of one call. `waiter` says what awaits the promise of the call. -/
structure OnResult (κ : Type*) where
  call : ℕ
  waiter : κ
  callback : Bool
  useTimeout : Bool

structure Timer where
  timeoutMs : ℕ
  post : AsyncSRTWorkerPost
  deriving DecidableEq, Repr

inductive CallReturn where
  | promise (call : ℕ)
  | rejectedPromise (e : AsyncError)
  | undefined
  | threw (e : AsyncError)
  deriving DecidableEq, Repr

/-- A call of the async function `write`: the length it read first and what it awaits. -/
structure WriteCall where
  socket : JSValue
  chunk : JSValue
  byteLength : ReturnValue
  awaited : CallReturn
  deriving DecidableEq, Repr

inductive DisposePhase where
  | notCalled | waiting | resuming | terminating | finished
  deriving DecidableEq, Repr

/-- The fields of the instance, the variables captured by the closures of its calls
(by call number), the control point, the port, and the history of the run. `untraced` has the
calls whose arguments have no text, with the timers they leave armed. -/
structure AsyncSRT (κ : Type*) where
  worker : Bool
  workCbQueue : List (OnResult κ)
  error : Option NativeError
  startedToDispose : Bool
  workerTerminatedWithErrorCode : Option ℤ
  lockLevel : ℤ
  nextCall : ℕ
  promise : ℕ → Settlement
  timeout : ℕ → Option Timer
  rejected : ℕ → Bool
  running : Option (OnResult κ × Bool)
  disposing : DisposePhase
  detached : Finset ArrayBuffer
  toWorker : List AsyncSRTWorkerPost
  toMain : List AsyncSRTWorkerMessage
  posted : List (OnResult κ × AsyncSRTWorkerPost)
  executed : List (AsyncSRTWorkerPost × Outcome)
  replies : List AsyncSRTWorkerMessage
  answered : ℕ
  writes : List WriteCall
  callbacks : List (ℕ × ReturnValue)
  terminations : List (Finset ℕ)
  flushed : List (ℕ × Bool)
  untraced : List (Option Timer)

variable {κ : Type*}

def initial : AsyncSRT κ where
  worker := true
  workCbQueue := []
  error := none
  startedToDispose := false
  workerTerminatedWithErrorCode := none
  lockLevel := 0
  nextCall := 0
  promise _ := .pending
  timeout _ := none
  rejected _ := false
  running := none
  disposing := .notCalled
  detached := ∅
  toWorker := []
  toMain := []
  posted := []
  executed := []
  replies := []
  answered := 0
  writes := []
  callbacks := []
  terminations := []
  flushed := []
  untraced := []

def AsyncSRT.isDisposed (s : AsyncSRT κ) : Bool := !s.worker

def AsyncSRT.accepted (s : AsyncSRT κ) : Finset ℕ := (s.posted.map fun p => p.1.call).toFinset

def AsyncSRT.unsettled (s : AsyncSRT κ) : Finset ℕ :=
  s.accepted.filter fun k => s.promise k = .pending

/-- `resolve` and `reject` of a promise: the first one to be called decides. -/
def settled (promise : ℕ → Settlement) (k : ℕ) (st : Settlement) : ℕ → Settlement :=
  if promise k = .pending then Function.update promise k st else promise

def AsyncSRT.settle (s : AsyncSRT κ) (k : ℕ) (st : Settlement) : AsyncSRT κ :=
  { s with promise := settled s.promise k st }

/-! ## Posting a call -/

/-- `_postAsyncWork`. The text for the log is made before the callback is queued, and the
callback is queued before `postMessage`; each of the two can throw. -/
def AsyncSRT.postAsyncWork (s : AsyncSRT κ) (post : AsyncSRTWorkerPost) (onResult : OnResult κ) :
    AsyncSRT κ × Option AsyncError :=
  if s.isDisposed then (s, some .disposedOnPost)
  else if traceCallToString s.detached post = none then (s, some .typeError)
  else
    let s := { s with workCbQueue := s.workCbQueue ++ [onResult] }
    if Postable s.detached post.args then
      ({ s with
          toWorker := s.toWorker ++ [post]
          detached := s.detached ∪ (movedBuffers post.args).toFinset
          posted := s.posted ++ [(onResult, post)] }, none)
    else (s, some .dataClone)

/-- The executor of the promise: the timer is armed first, then the call is posted. An
error thrown on the way rejects the promise and undoes nothing. A call that is not even queued
gets no number: its promise stays as it is, and its timer, whose text cannot be made either,
throws before it does anything. -/
def AsyncSRT.executor (s : AsyncSRT κ) (post : AsyncSRTWorkerPost) (callback useTimeout : Bool)
    (timeoutMs : ℕ) (waiter : κ) : AsyncSRT κ × CallReturn :=
  let k := s.nextCall
  let timer : Timer := ⟨timeoutMs, post⟩
  let armed := { s with
    nextCall := k + 1
    timeout := if useTimeout then Function.update s.timeout k (some timer) else s.timeout }
  match armed.postAsyncWork post ⟨k, waiter, callback, useTimeout⟩ with
  | (s, none) => (s, .promise k)
  | (_, some .typeError) =>
    ({ s with untraced := s.untraced ++ [if useTimeout then some timer else none] },
      .rejectedPromise .typeError)
  | (s, some e) => (s.settle k (.rejected e), .promise k)

/-- The Error for an undefined argument, or the one thrown while its text is made. -/
def undefinedError (detached : Finset ArrayBuffer) (post : AsyncSRTWorkerPost) : AsyncError :=
  if traceCallToString detached post = none then .typeError else .undefinedArgument post

def AsyncSRT.createAsyncWorkPromise (s : AsyncSRT κ) (post : AsyncSRTWorkerPost)
    (callback useTimeout : Bool) (timeoutMs : ℕ) (waiter : κ) : AsyncSRT κ × CallReturn :=
  if s.isDisposed then (s, .rejectedPromise .disposedOnCall)
  else if s.startedToDispose then (s, .undefined)
  else
    let s := { s with lockLevel := s.lockLevel + 1 }
    if anyUndefined post.args then
      ({ s with lockLevel := s.lockLevel - 1 }, .threw (undefinedError s.detached post))
    else s.executor post callback useTimeout timeoutMs waiter

/-! ## The methods -/

def SRTO_PASSPHRASE : ℤ := 26

/-- `AsyncSRT.TimeoutMs` as the module sets it. -/
def DEFAULT_PROMISE_TIMEOUT_MS : ℕ := 3000

/-- The methods with the arguments they are called with; `setSockOpt` and `getSockOpt`
are `setSockFlag` and `getSockFlag`. Only `accept` lets its caller ask for a timeout. -/
inductive ApiCall where
  | createSocket (sender : JSValue)
  | bind (socket address port : JSValue)
  | listen (socket backlog : JSValue)
  | connect (socket host port : JSValue)
  | accept (socket : JSValue) (useTimeout : Bool) (timeoutMs : ℕ)
  | close (socket : JSValue)
  | read (socket chunkSize : JSValue)
  | write (socket chunk : JSValue)
  | setSockFlag (socket option value : JSValue)
  | getSockFlag (socket option : JSValue)
  | getSockState (socket : JSValue)
  | epollCreate
  | epollAddUsock (epid socket events : JSValue)
  | epollUWait (epid msTimeOut : JSValue)
  | setLogLevel (logLevel : JSValue)
  | stats (socket clear : JSValue)
  deriving DecidableEq, Repr

/-- The method name and argument list each method builds. `createSocket(sender = false)`
is the only one with a default among its positional arguments. -/
def ApiCall.post : ApiCall → AsyncSRTWorkerPost
  | .createSocket sender =>
    ⟨.createSocket, [if sender = .undefined then .boolean false else sender]⟩
  | .bind socket address port => ⟨.bind, [socket, address, port]⟩
  | .listen socket backlog => ⟨.listen, [socket, backlog]⟩
  | .connect socket host port => ⟨.connect, [socket, host, port]⟩
  | .accept socket _ _ => ⟨.accept, [socket]⟩
  | .close socket => ⟨.close, [socket]⟩
  | .read socket chunkSize => ⟨.read, [socket, chunkSize]⟩
  | .write socket chunk => ⟨.write, [socket, chunk]⟩
  | .setSockFlag socket option value => ⟨.setSockFlag, [socket, option, value]⟩
  | .getSockFlag socket option => ⟨.getSockFlag, [socket, option]⟩
  | .getSockState socket => ⟨.getSockState, [socket]⟩
  | .epollCreate => ⟨.epollCreate, []⟩
  | .epollAddUsock epid socket events => ⟨.epollAddUsock, [epid, socket, events]⟩
  | .epollUWait epid msTimeOut => ⟨.epollUWait, [epid, msTimeOut]⟩
  | .setLogLevel logLevel => ⟨.setLogLevel, [logLevel]⟩
  | .stats socket clear => ⟨.stats, [socket, clear]⟩

def ApiCall.useTimeout : ApiCall → Bool
  | .accept _ useTimeout _ => useTimeout
  | _ => false

def ApiCall.timeoutMs : ApiCall → ℕ
  | .accept _ _ timeoutMs => timeoutMs
  | _ => DEFAULT_PROMISE_TIMEOUT_MS

def validPassphrase : JSValue → Bool
  | .string s => s.length == 0 || (10 ≤ s.length && s.length ≤ 79)
  | _ => false

/-- The Error for an invalid passphrase, or the one thrown while its text is made. -/
def passphraseError (value : JSValue) : AsyncError :=
  if concatText value = none then .typeError else .invalidPassphrase value

/-- What a method throws before it makes the promise of its call. `write` reads and logs
`chunk.byteLength`, which fails on `undefined` and `null`. -/
def ApiCall.earlyError : ApiCall → Option AsyncError
  | .setSockFlag _ option value =>
    if option = .number SRTO_PASSPHRASE ∧ validPassphrase value = false
    then some (passphraseError value) else none
  | .write _ .undefined | .write _ .null => some .typeError
  | .write _ (.object o) => if o.byteLength = none then some .typeError else none
  | _ => none

/-- `chunk.byteLength` where this does not throw; the other methods read none. -/
def ApiCall.byteLength (detached : Finset ArrayBuffer) : ApiCall → ReturnValue
  | .write _ (.bytes v) => .number (v.byteLength detached)
  | .write _ (.object o) => o.byteLength.getD .undefined
  | _ => .undefined

def ApiCall.writeFrame (byteLength : ReturnValue) (awaited : CallReturn) :
    ApiCall → List WriteCall
  | .write socket chunk => [⟨socket, chunk, byteLength, awaited⟩]
  | _ => []

def AsyncSRT.recordWrite (s : AsyncSRT κ) (frame : List WriteCall) : AsyncSRT κ :=
  { s with writes := s.writes ++ frame }

/-- A call of an API method. The promise of `write` itself is derived in `WriteCall.promise`. -/
def AsyncSRT.apiCall (s : AsyncSRT κ) (c : ApiCall) (callback : Bool) (waiter : κ) :
    AsyncSRT κ × CallReturn :=
  match c.earlyError with
  | some e => (s.recordWrite (c.writeFrame .undefined (.threw e)), .threw e)
  | none =>
    let byteLength := c.byteLength s.detached
    let r := s.createAsyncWorkPromise c.post callback c.useTimeout c.timeoutMs waiter
    (r.1.recordWrite (c.writeFrame byteLength r.2), r.2)

/-- The promise of `write`, where what it awaits has come to. Being an async function it
turns a thrown error into a rejection, and awaiting `undefined` gives `undefined`. -/
def WriteCall.promise (s : AsyncSRT κ) (w : WriteCall) : Settlement :=
  let afterAwait (ret : ReturnValue) : Settlement :=
    if ret = .number SRT_ERROR then .rejected .writeFailed else .fulfilled w.byteLength
  match w.awaited with
  | .threw e | .rejectedPromise e => .rejected e
  | .undefined => afterAwait .undefined
  | .promise k =>
    match s.promise k with
    | .pending => .pending
    | .rejected e => .rejected e
    | .fulfilled v => afterAwait v

/-! ## Replies and timeouts -/

/-- The end of `onResult` after the user's callback, whose errors are caught and logged. -/
def AsyncSRT.finishOnResult (s : AsyncSRT κ) (late : Bool) : AsyncSRT κ :=
  { s with lockLevel := if late then s.lockLevel else s.lockLevel - 1 }

def AsyncSRT.enterCallback (s : AsyncSRT κ) (cb : OnResult κ) (result : ReturnValue)
    (late : Bool) : AsyncSRT κ :=
  if cb.callback then
    { s with running := some (cb, late), callbacks := s.callbacks ++ [(cb.call, result)] }
  else s.finishOnResult late

/-- `onResult`. A result that comes after the timeout only reaches the callback. -/
def AsyncSRT.onResult (s : AsyncSRT κ) (cb : OnResult κ) (result : ReturnValue) : AsyncSRT κ :=
  if s.rejected cb.call then s.enterCallback cb result true
  else
    let s := { s with
      timeout := if cb.useTimeout then Function.update s.timeout cb.call none else s.timeout }
    (s.settle cb.call (.fulfilled result)).enterCallback cb result false

def AsyncSRT.onWorkerMessage (s : AsyncSRT κ) (data : AsyncSRTWorkerMessage) : AsyncSRT κ :=
  if s.isDisposed then s
  else
    let callback := s.workCbQueue.head?
    let s := { s with workCbQueue := s.workCbQueue.tail, error := data.err <|> s.error }
    match callback with
    | some cb => s.onResult cb data.result
    | none => s

def AsyncSRT.onTimeout (s : AsyncSRT κ) (k : ℕ) (t : Timer) : AsyncSRT κ :=
  let s := { s with timeout := Function.update s.timeout k none }
  let s := s.settle k (.rejected (.timeoutExceeded t.timeoutMs t.post))
  { s with lockLevel := s.lockLevel - 1, rejected := Function.update s.rejected k true }

/-! ## Disposal -/

/-- The rest of `dispose` after the wait: the worker is dropped, the callback queue
flushed and the worker terminated, all in one turn. -/
def AsyncSRT.terminateWorker (s : AsyncSRT κ) : AsyncSRT κ :=
  let unsettled := s.unsettled
  let worker := s.worker
  let s := { s with
    worker := false
    flushed := s.flushed ++ s.workCbQueue.map (fun cb : OnResult κ => (cb.call, s.rejected cb.call))
    workCbQueue := [] }
  if worker then
    { s with disposing := .terminating, terminations := s.terminations ++ [unsettled] }
  else { s with disposing := .finished, workerTerminatedWithErrorCode := some 0 }

/-- `dispose` up to its first await. `waitForCondition` tests the counter at once, which
is still positive then, and again after each sleep. -/
def AsyncSRT.dispose (s : AsyncSRT κ) : AsyncSRT κ :=
  if s.startedToDispose then s
  else
    let s := { s with startedToDispose := true }
    if 0 < s.lockLevel then { s with disposing := .waiting } else s.terminateWorker

/-! ## Events -/

/-- `call` and `dispose` are the user's and may come at any time, also from inside a
callback. The others are macrotasks, and the microtasks in which `dispose` resumes. -/
inductive Event (κ : Type*) where
  | call (c : ApiCall) (callback : Bool) (waiter : κ)
  | dispose
  | exec (o : Outcome)
  | deliver
  | callbackReturn (threw : Bool)
  | timer (k : ℕ)
  | pollDispose
  | resumeDispose
  | exited (code : ℤ)

def Enabled (s : AsyncSRT κ) : Event κ → Prop
  | .call _ _ _ | .dispose => True
  | .exec _ => s.toWorker ≠ [] ∧ s.disposing ≠ .finished
  | .deliver => s.toMain ≠ [] ∧ s.running = none
  | .callbackReturn _ => s.running ≠ none
  | .timer k => s.timeout k ≠ none ∧ s.running = none
  | .pollDispose => s.disposing = .waiting ∧ s.running = none
  | .resumeDispose => s.disposing = .resuming ∧ s.running = none
  | .exited _ => s.disposing = .terminating ∧ s.running = none

instance (s : AsyncSRT κ) : (e : Event κ) → Decidable (Enabled s e)
  | .call _ _ _ | .dispose => isTrue trivial
  | .exec _ => inferInstanceAs (Decidable (s.toWorker ≠ [] ∧ s.disposing ≠ .finished))
  | .deliver => inferInstanceAs (Decidable (s.toMain ≠ [] ∧ s.running = none))
  | .callbackReturn _ => inferInstanceAs (Decidable (s.running ≠ none))
  | .timer k => inferInstanceAs (Decidable (s.timeout k ≠ none ∧ s.running = none))
  | .pollDispose => inferInstanceAs (Decidable (s.disposing = .waiting ∧ s.running = none))
  | .resumeDispose => inferInstanceAs (Decidable (s.disposing = .resuming ∧ s.running = none))
  | .exited _ => inferInstanceAs (Decidable (s.disposing = .terminating ∧ s.running = none))

/-- The worker takes the oldest message, makes the native call and posts the reply. -/
def AsyncSRT.exec (s : AsyncSRT κ) (data : AsyncSRTWorkerPost) (o : Outcome) : AsyncSRT κ :=
  { s with
    toWorker := s.toWorker.tail
    toMain := s.toMain ++ [workerReply data o]
    replies := s.replies ++ [workerReply data o]
    executed := if anyUndefined data.args then s.executed else s.executed ++ [(data, o)] }

def AsyncSRT.deliver (s : AsyncSRT κ) (data : AsyncSRTWorkerMessage) : AsyncSRT κ :=
  { s with toMain := s.toMain.tail, answered := s.answered + 1 }.onWorkerMessage data

def next (s : AsyncSRT κ) : Event κ → AsyncSRT κ
  | .call c callback waiter => (s.apiCall c callback waiter).1
  | .dispose => s.dispose
  | .exec o =>
    match s.toWorker with
    | data :: _ => s.exec data o
    | [] => s
  | .deliver =>
    match s.toMain with
    | data :: _ => s.deliver data
    | [] => s
  | .callbackReturn _ =>
    match s.running with
    | some (_, late) => { s with running := none }.finishOnResult late
    | none => s
  | .timer k =>
    match s.timeout k with
    | some t => s.onTimeout k t
    | none => s
  | .pollDispose => if s.lockLevel ≤ 0 then { s with disposing := .resuming } else s
  | .resumeDispose => s.terminateWorker
  | .exited code =>
    { s with disposing := .finished, workerTerminatedWithErrorCode := some code }

def machine (κ : Type*) : Machine (AsyncSRT κ) (Event κ) := ⟨Enabled, next⟩

instance (s : AsyncSRT κ) (e : Event κ) : Decidable ((machine κ).Enabled s e) :=
  inferInstanceAs (Decidable (Enabled s e))

def Reachable (s : AsyncSRT κ) : Prop := (machine κ).Execution initial s

end AsyncApi
