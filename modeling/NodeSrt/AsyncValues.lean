import Mathlib.Data.Finset.Basic
import Mathlib.Data.Rat.Init

/-! # Values, messages and errors of the async API

What crosses the worker port, and what the helpers of `async-helpers.ts` do with it.
Strings are sequences of UTF-16 code units. Numbers are the integers the API passes
and returns, apart from the members of a statistics object, which may be fractional. -/
namespace AsyncValues

abbrev Bytes := List UInt8
abbrev JSString := List UInt16

/-- The code units of a source literal; every literal of the modelled files is ASCII. -/
def ascii (s : String) : JSString := s.toList.map fun c => UInt16.ofNat c.toNat

inductive Method where
  | createSocket | bind | listen | connect | accept | close | read | write
  | setSockFlag | getSockFlag | getSockState
  | epollCreate | epollAddUsock | epollUWait | setLogLevel | stats
  deriving DecidableEq, Repr

def Method.name : Method → String
  | .createSocket => "createSocket"
  | .bind => "bind"
  | .listen => "listen"
  | .connect => "connect"
  | .accept => "accept"
  | .close => "close"
  | .read => "read"
  | .write => "write"
  | .setSockFlag => "setSockFlag"
  | .getSockFlag => "getSockFlag"
  | .getSockState => "getSockState"
  | .epollCreate => "epollCreate"
  | .epollAddUsock => "epollAddUsock"
  | .epollUWait => "epollUWait"
  | .setLogLevel => "setLogLevel"
  | .stats => "stats"

/-- What `postMessage` does with a listed `ArrayBuffer`. One that is marked untransferable,
such as the pool of the small Buffers, is copied by old versions of Node and refused by new ones. -/
inductive Transfer where
  | moved | copied | refused
  deriving DecidableEq, Repr

structure ArrayBuffer where
  id : ℕ
  transfer : Transfer
  deriving DecidableEq, Repr

structure BufferView where
  isBuffer : Bool
  buffer : ArrayBuffer
  data : Bytes
  deriving DecidableEq, Repr

structure SRTEpollResult where
  socket : ℤ
  events : ℤ
  deriving DecidableEq, Repr

/-- `AsyncSRTReturnValue`; `undefined` is what a call of a disposing instance yields. -/
inductive ReturnValue where
  | undefined
  | null
  | boolean (b : Bool)
  | number (n : ℤ)
  | string (s : JSString)
  | bytes (data : Bytes)
  | epollResults (events : List SRTEpollResult)
  | stats (members : List (String × ℚ))
  deriving DecidableEq, Repr

/-- Another object, or a symbol. `text` is its conversion to a string, `traceText` what a trace
shows of it and `byteLength` what `write` reads and logs, each where this does not throw;
`Object.create(null)` has no text. -/
structure JSObject where
  text : Option JSString
  traceText : Option JSString
  byteLength : Option ReturnValue
  buffer : Option ArrayBuffer
  deriving DecidableEq, Repr

/-- What a caller may pass. A function stands for the values structured cloning refuses. -/
inductive JSValue where
  | undefined
  | null
  | boolean (b : Bool)
  | number (n : ℤ)
  | string (s : JSString)
  | bytes (v : BufferView)
  | object (o : JSObject)
  | function (text : JSString)
  deriving DecidableEq, Repr

/-- `SRTResult.SRT_ERROR`, which is also `SRT.ERROR` and `SRT.INVALID_SOCK`. -/
def SRT_ERROR : ℤ := -1

structure NativeError where
  message : JSString
  deriving DecidableEq, Repr

abbrev Outcome := Except NativeError ReturnValue

structure AsyncSRTWorkerPost where
  method : Method
  args : List JSValue
  deriving DecidableEq, Repr

structure AsyncSRTWorkerMessage where
  result : ReturnValue
  err : Option NativeError
  deriving DecidableEq, Repr

/-! ## async-helpers.ts -/

/-- `elem && elem.buffer && elem.buffer instanceof ArrayBuffer`, with the buffer. -/
def viewedBuffer : JSValue → Option ArrayBuffer
  | .bytes v => some v.buffer
  | .object o => o.buffer
  | _ => none

def extractTransferListFromParams (args : List JSValue) : List ArrayBuffer :=
  args.filterMap viewedBuffer

def BufferView.byteLength (detached : Finset ArrayBuffer) (v : BufferView) : ℕ :=
  if v.buffer ∈ detached then 0 else v.data.length

/-- `argsItemToString` followed by what `Array.prototype.join` makes of the item, which throws
where the item has no text. -/
def argsItemToString (detached : Finset ArrayBuffer) : JSValue → Option JSString
  | .undefined | .null => some []
  | .boolean b => some (ascii (toString b))
  | .number n => some (ascii (toString n))
  | .string s => some s
  | .bytes v =>
    some (ascii (if v.isBuffer then "Buffer" else "Uint8Array") ++ ascii "<bytes=" ++
      ascii (toString (v.byteLength detached)) ++ ascii ">")
  | .object o => o.traceText
  | .function text => some text

def argsToString (detached : Finset ArrayBuffer) (args : List JSValue) : Option JSString :=
  (args.mapM (argsItemToString detached)).map fun items =>
    ascii "[" ++ (ascii ", ").intercalate items ++ ascii "]"

def traceCallToString (detached : Finset ArrayBuffer) (call : AsyncSRTWorkerPost) :
    Option JSString :=
  (argsToString detached call.args).map fun list =>
    ascii "SRT." ++ ascii call.method.name ++ ascii "(..." ++ list ++ ascii ");"

def JSValue.hasText : JSValue → Bool
  | .object o => o.traceText.isSome
  | _ => true

@[simp] theorem argsItemToString_isSome (detached : Finset ArrayBuffer) (v : JSValue) :
    (argsItemToString detached v).isSome = v.hasText := by
  cases v <;> rfl

theorem mapM_argsItemToString_isSome (detached : Finset ArrayBuffer) (args : List JSValue) :
    (args.mapM (argsItemToString detached)).isSome = args.all JSValue.hasText := by
  induction args with
  | nil => rfl
  | cons v rest ih =>
    rw [List.all_cons, ← ih, ← argsItemToString_isSome detached v, List.mapM_cons]
    cases argsItemToString detached v <;> cases rest.mapM (argsItemToString detached) <;> rfl

@[simp] theorem traceCallToString_isSome (detached : Finset ArrayBuffer)
    (call : AsyncSRTWorkerPost) :
    (traceCallToString detached call).isSome = call.args.all JSValue.hasText := by
  simp [traceCallToString, argsToString, mapM_argsItemToString_isSome]

/-! ## The port -/

def JSValue.Cloneable : JSValue → Bool
  | .function _ => false
  | _ => true

/-- The listed buffers that are moved to the worker, and so are detached here. -/
def movedBuffers (args : List JSValue) : List ArrayBuffer :=
  (extractTransferListFromParams args).filter fun b => b.transfer = .moved

/-- `postMessage` throws a DataCloneError, and sends nothing, unless every argument can be
cloned, no listed `ArrayBuffer` is refused or detached and none that is moved is listed twice. -/
def Postable (detached : Finset ArrayBuffer) (args : List JSValue) : Prop :=
  (∀ a ∈ args, a.Cloneable) ∧
    (∀ b ∈ extractTransferListFromParams args, b.transfer ≠ .refused ∧ b ∉ detached) ∧
    (movedBuffers args).Nodup

instance (detached : Finset ArrayBuffer) (args : List JSValue) :
    Decidable (Postable detached args) :=
  inferInstanceAs (Decidable (_ ∧ _ ∧ _))

def anyUndefined (args : List JSValue) : Bool := args.any (· == .undefined)

/-! ## async-worker.ts -/

/-- What a caller of the synchronous object sees in place of a thrown Error. -/
def resultOf : Outcome → ReturnValue
  | .ok r => r
  | .error _ => .number SRT_ERROR

def replyTo : Outcome → AsyncSRTWorkerMessage
  | .ok r => ⟨r, none⟩
  | .error err => ⟨.number SRT_ERROR, some err⟩

@[simp] theorem replyTo_result (o : Outcome) : (replyTo o).result = resultOf o := by
  cases o <;> rfl

/-- The `message` handler of the worker, given how the native call ends if it is made.
A posted `Error` object has neither a `result` nor an `err` property. -/
def workerReply (data : AsyncSRTWorkerPost) (o : Outcome) : AsyncSRTWorkerMessage :=
  if anyUndefined data.args then ⟨.undefined, none⟩ else replyTo o

/-! ## Errors -/

/-- `'' + value`, which throws where the value has no text. The declared type of an option
value admits no `Buffer`, whose text would be its UTF-8 decoding and not its bytes. -/
def concatText : JSValue → Option JSString
  | .undefined => some (ascii "undefined")
  | .null => some (ascii "null")
  | .boolean b => some (ascii (toString b))
  | .number n => some (ascii (toString n))
  | .string s => some s
  | .bytes v => some ((ascii ",").intercalate (v.data.map fun b => ascii (toString b)))
  | .object o => o.text
  | .function text => some text

inductive AsyncError where
  | disposedOnCall
  | disposedOnPost
  | undefinedArgument (call : AsyncSRTWorkerPost)
  | timeoutExceeded (timeoutMs : ℕ) (call : AsyncSRTWorkerPost)
  | invalidPassphrase (value : JSValue)
  | writeFailed
  | dataClone
  | typeError
  deriving DecidableEq, Repr

/-- The texts the source gives its errors; the engine's own errors have none here. An error
whose text cannot be made is never raised: the engine's `TypeError` comes in its place. -/
def AsyncError.message (detached : Finset ArrayBuffer) : AsyncError → JSString
  | .disposedOnCall =>
    ascii "AsyncSRT_createAsyncWorkPromise: has already been dispose()'d"
  | .disposedOnPost => ascii "AsyncSRT._postAsyncWork: has already been dispose()'d"
  | .undefinedArgument call =>
    ascii "AsyncSRT: Undefined value in argument list: " ++
      (traceCallToString detached call).getD [] ++
      ascii ".\n        Probably missing some non-optional parameters when method called."
  | .timeoutExceeded timeoutMs call =>
    ascii "Timeout exceeded (" ++ ascii (toString timeoutMs) ++
      ascii " ms) while awaiting method result: " ++ (traceCallToString detached call).getD []
  | .invalidPassphrase value =>
    ascii "AsyncSRT:: setSockFlag(option=SRTSockOpt.SRTO_PASSPHRASE, value=`" ++
      (concatText value).getD [] ++
      ascii "`):: Invalid value, it should be a string of length 0 (to disable encryption)" ++
      ascii " or a string of length [10..79]"
  | .writeFailed => ascii "AsyncSRT:: write:: Got SRT_ERROR while trying to write"
  | .dataClone | .typeError => []

end AsyncValues
