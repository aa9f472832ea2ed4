import NodeSrt.AsyncApi

/-! # SRTServerConnection

The connection object of `srt-server.ts`. Its one state bit is the nullable async handle.
The constructor parameter of that name is not a property, so the handle it is given is lost
and the field keeps its initial `null`: a new connection is closed already. -/
namespace ServerConnection

open AsyncValues
open TransitionSystem
open AsyncApi

/-- The handle is a parameter: `H` names AsyncSRT instances. -/
structure SRTServerConnection (H : Type*) where
  asyncSrt : Option H
  fd : JSValue
  gotFirstData : Bool
  deriving DecidableEq

structure AsyncReaderWriter (H : Type*) where
  asyncSrt : H
  fd : JSValue
  deriving DecidableEq

inductive ConnectionError where
  | alreadyClosed (method : String)
  deriving DecidableEq, Repr

def ConnectionError.message : ConnectionError → JSString
  | .alreadyClosed method =>
    ascii "SRTServerConnection:: " ++ ascii method ++ ascii ":: Connection already closed"

variable {H : Type*}

namespace SRTServerConnection

/-- `constructor(_asyncSrt: AsyncSRT, private _fd: number)` -/
def construct (_asyncSrt : H) (fd : JSValue) : SRTServerConnection H where
  asyncSrt := none
  fd := fd
  gotFirstData := false

def isClosed (c : SRTServerConnection H) : Bool := c.asyncSrt.isNone

/-- The check that `getReaderWriter`, `read` and `write` begin with. -/
def whenOpen {α : Type*} (c : SRTServerConnection H) (method : String) (f : H → α) :
    Except ConnectionError α :=
  match c.asyncSrt with
  | none => .error (.alreadyClosed method)
  | some asyncSrt => .ok (f asyncSrt)

def getReaderWriter (c : SRTServerConnection H) : Except ConnectionError (AsyncReaderWriter H) :=
  c.whenOpen "getReaderWriter" fun asyncSrt => ⟨asyncSrt, c.fd⟩

def read (c : SRTServerConnection H) (bytes : JSValue) : Except ConnectionError (H × ApiCall) :=
  c.whenOpen "read" fun asyncSrt => (asyncSrt, .read c.fd bytes)

def write (c : SRTServerConnection H) (chunk : JSValue) : Except ConnectionError (H × ApiCall) :=
  c.whenOpen "write" fun asyncSrt => (asyncSrt, .write c.fd chunk)

def afterData (c : SRTServerConnection H) : SRTServerConnection H :=
  if c.gotFirstData then c else { c with gotFirstData := true }

end SRTServerConnection

inductive Emission where
  | data | closing
  | closed (result : ReturnValue)
  deriving DecidableEq, Repr

inductive Effect (H : Type*) where
  | post (asyncSrt : H) (call : ApiCall)
  | emit (e : Emission)
  deriving DecidableEq

inductive Frame (H : Type*) where
  | data
  | closing (asyncSrt : H)
  | closed (result : ReturnValue)
  deriving DecidableEq

inductive CloseReturn where
  | null
  | fulfilled (result : ReturnValue)
  | rejected
  deriving DecidableEq, Repr

/-- A connection in use: the emits that are running, the close calls that await their
reply, and what has been done so far. -/
structure ConnectionRun (H : Type*) where
  conn : SRTServerConnection H
  stack : List (Frame H)
  awaiting : ℕ
  trace : List (Effect H)
  closeCalls : ℕ
  closeReturns : List CloseReturn

def ConnectionRun.start (conn : SRTServerConnection H) : ConnectionRun H where
  conn := conn
  stack := []
  awaiting := 0
  trace := []
  closeCalls := 0
  closeReturns := []

def ConnectionRun.emit (s : ConnectionRun H) (e : Emission) (frame : Frame H) : ConnectionRun H :=
  { s with trace := s.trace ++ [.emit e], stack := frame :: s.stack }

def ConnectionRun.post (s : ConnectionRun H) :
    Except ConnectionError (H × ApiCall) → ConnectionRun H
  | .ok (asyncSrt, call) => { s with trace := s.trace ++ [.post asyncSrt call] }
  | .error _ => s

def ConnectionRun.returnClose (s : ConnectionRun H) (r : CloseReturn) : ConnectionRun H :=
  { s with closeReturns := s.closeReturns ++ [r] }

/-- `close` up to the listeners of `closing`. -/
def ConnectionRun.close (s : ConnectionRun H) : ConnectionRun H :=
  let s := { s with closeCalls := s.closeCalls + 1 }
  match s.conn.asyncSrt with
  | none => s.returnClose .null
  | some asyncSrt =>
    { s with conn := { s.conn with asyncSrt := none } }.emit .closing (.closing asyncSrt)

/-- Calls may be made at any time, also by listeners; an error thrown by a listener ends
the method that emits. The handle settles a close at any later time. -/
inductive ConnectionEvent where
  | getReaderWriter
  | read (bytes : JSValue)
  | write (chunk : JSValue)
  | isClosed
  | onData
  | close
  | listenerReturn (threw : Bool)
  | closeSettled (st : Settlement)

def Enabled (s : ConnectionRun H) : ConnectionEvent → Prop
  | .listenerReturn _ => s.stack ≠ []
  | .closeSettled st => s.stack = [] ∧ 0 < s.awaiting ∧ st ≠ .pending
  | _ => True

def ConnectionRun.listenerReturn (s : ConnectionRun H) (frame : Frame H) (threw : Bool) :
    ConnectionRun H :=
  let s := { s with stack := s.stack.tail }
  match frame, threw with
  | .data, false => { s with conn := s.conn.afterData }
  | .data, true => s
  | .closing asyncSrt, false =>
    { s.post (.ok (asyncSrt, .close s.conn.fd)) with awaiting := s.awaiting + 1 }
  | .closed result, false => s.returnClose (.fulfilled result)
  | .closing _, true | .closed _, true => s.returnClose .rejected

def next (s : ConnectionRun H) : ConnectionEvent → ConnectionRun H
  | .getReaderWriter | .isClosed => s
  | .read bytes => s.post (s.conn.read bytes)
  | .write chunk => s.post (s.conn.write chunk)
  | .onData => s.emit .data .data
  | .close => s.close
  | .listenerReturn threw =>
    match s.stack with
    | frame :: _ => s.listenerReturn frame threw
    | [] => s
  | .closeSettled st =>
    let s := { s with awaiting := s.awaiting - 1 }
    match st with
    | .fulfilled result => s.emit (.closed result) (.closed result)
    | .rejected _ => s.returnClose .rejected
    | .pending => s

def machine (H : Type*) : Machine (ConnectionRun H) ConnectionEvent := ⟨Enabled, next⟩

/-! ## The life cycle -/

def Effect.ofClose : Effect H → Bool
  | .post _ (.close _) | .emit .closing | .emit (.closed _) => true
  | _ => false

def closeEffects (trace : List (Effect H)) : List (Effect H) := trace.filter Effect.ofClose

@[simp] theorem closeEffects_concat (trace : List (Effect H)) (e : Effect H) :
    closeEffects (trace ++ [e]) = closeEffects trace ++ if e.ofClose then [e] else [] := by
  cases h : e.ofClose <;> simp [closeEffects, List.filter_append, h]

def closing (asyncSrt : H) (fd : JSValue) (result : ReturnValue) : List (Effect H) :=
  [.emit .closing, .post asyncSrt (.close fd), .emit (.closed result)]

/-- Open and acting on its handle until `close` is first called, closed from then on, with
one native close between the two events and nothing done by later calls. -/
structure LifeCycle (asyncSrt : H) (fd : JSValue) (s : ConnectionRun H) : Prop where
  before : s.closeCalls = 0 → s.conn.isClosed = false ∧
    s.conn.getReaderWriter = .ok ⟨asyncSrt, fd⟩ ∧
    (∀ bytes, s.conn.read bytes = .ok (asyncSrt, .read fd bytes)) ∧
    (∀ chunk, s.conn.write chunk = .ok (asyncSrt, .write fd chunk)) ∧ closeEffects s.trace = []
  after : 0 < s.closeCalls → s.conn.isClosed = true ∧
    s.conn.getReaderWriter = .error (.alreadyClosed "getReaderWriter") ∧
    (∀ bytes, s.conn.read bytes = .error (.alreadyClosed "read")) ∧
    (∀ chunk, s.conn.write chunk = .error (.alreadyClosed "write"))
  first : ∃ result, closeEffects s.trace <+: closing asyncSrt fd result
  done : ∀ result, .fulfilled result ∈ s.closeReturns →
    closeEffects s.trace = closing asyncSrt fd result
  later : s.closeReturns.count .null = s.closeCalls - 1

end ServerConnection
