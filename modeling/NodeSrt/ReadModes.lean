import NodeSrt.AsyncApi

/-! # The read loop

`readChunks` of `async-read-modes.ts` over an AsyncSRT instance that others may use as
well. One read is outstanding at a time. The flag that should end the loop after a failure
is never set. -/
namespace ReadModes

open AsyncValues
open TransitionSystem
open AsyncApi

def READ_BUF_SIZE : ℕ := 16 * 1024

/-- The arguments of a call, with whether there are handlers. -/
structure ReadArgs where
  socketFd : JSValue
  minBytesRead : ℤ
  readBufSize : JSValue := .number READ_BUF_SIZE
  onRead : Bool
  onError : Bool

inductive ReadError where
  | unexpectedResult (readReturn : ReturnValue)
  | rejected (e : AsyncError)
  | handler
  deriving DecidableEq, Repr

inductive ReadOutcome where
  | fulfilled (chunks : List Bytes)
  | rejected (e : ReadError)
  deriving DecidableEq, Repr

/-- The locals of the call, what it awaits, and the calls it has made to its handlers. -/
structure Reading where
  sys : AsyncSRT Unit
  bytesRead : ℤ
  chunks : List Bytes
  anyFailures : Bool
  started : Bool
  awaited : Option CallReturn
  onReads : List Bytes
  onErrors : List ReturnValue
  returned : Option ReadOutcome

def Reading.initial : Reading where
  sys := AsyncApi.initial
  bytesRead := 0
  chunks := []
  anyFailures := false
  started := false
  awaited := none
  onReads := []
  onErrors := []
  returned := none

variable (p : ReadArgs)

/-- The head of the `while` loop: either the next read is called for or the loop is over. -/
def Reading.loopHead (s : Reading) : Reading :=
  if s.bytesRead < p.minBytesRead then
    let r := s.sys.apiCall (.read p.socketFd p.readBufSize) false ()
    { s with sys := r.1, awaited := some r.2 }
  else { s with returned := some (.fulfilled s.chunks) }

def Reading.readReturn (s : Reading) : Settlement :=
  match s.awaited with
  | some (.promise k) => s.sys.promise k
  | some .undefined => .fulfilled .undefined
  | some (.rejectedPromise e) | some (.threw e) => .rejected e
  | none => .pending

def Reading.handle (s : Reading) (readReturn : ReturnValue) (threw : Bool) : Reading :=
  match readReturn with
  | .bytes readBuf =>
    let s := { s with bytesRead := s.bytesRead + readBuf.length }
    let s := if p.onRead then { s with onReads := s.onReads ++ [readBuf] } else s
    if p.onRead && threw then { s with returned := some (.rejected .handler) }
    else { s with chunks := s.chunks ++ [readBuf] }.loopHead p
  | readReturn =>
    if s.anyFailures then { s with returned := some (.fulfilled s.chunks) }
    else if readReturn = .number SRT_ERROR ∨ readReturn = .null then
      let s := if p.onError then { s with onErrors := s.onErrors ++ [readReturn] } else s
      if p.onError && threw then { s with returned := some (.rejected .handler) }
      else s.loopHead p
    else { s with returned := some (.rejected (.unexpectedResult readReturn)) }

def Reading.resume (s : Reading) (threw : Bool) : Reading :=
  match s.readReturn with
  | .pending => s
  | .rejected e => { s with awaited := none, returned := some (.rejected (.rejected e)) }
  | .fulfilled readReturn => { s with awaited := none }.handle p readReturn threw

inductive ReadEvent where
  | sys (e : Event Unit)
  | begin
  | resume (threw : Bool)

def Reading.Enabled (s : Reading) : ReadEvent → Prop
  | .sys e => AsyncApi.Enabled s.sys e
  | .begin => s.started = false
  | .resume _ => s.readReturn ≠ .pending

instance (s : Reading) : (e : ReadEvent) → Decidable (s.Enabled e)
  | .sys e => inferInstanceAs (Decidable (AsyncApi.Enabled s.sys e))
  | .begin => inferInstanceAs (Decidable (_ = _))
  | .resume _ => inferInstanceAs (Decidable (_ ≠ _))

def Reading.next (s : Reading) : ReadEvent → Reading
  | .sys e => { s with sys := AsyncApi.next s.sys e }
  | .begin => { s with started := true }.loopHead p
  | .resume threw => s.resume p threw

def readingMachine : Machine Reading ReadEvent := ⟨Reading.Enabled, Reading.next p⟩

end ReadModes
