import NodeSrt.AsyncValues
import NodeSrt.TransitionSystem

/-! # SRTWriteStream

The stream of `srt-stream-writable.ts`. Every sequence of its methods is a run: the result of
the library comes with the call, and a `destroy` is the user's or comes from `Writable` when
the stream ends or fails. -/
namespace WriteStream

open TransitionSystem
open AsyncValues

/-- `NodeSRT::Connect`, `Close` and `Write` throw when the library function fails. -/
def throws (result : ℤ) : Bool := result = SRT_ERROR

inductive WriteError where
  | socketWasClosed
  deriving DecidableEq, Repr

/-- A call of `_write`: whether it threw, what its callback was called with, and whether the
native socket took the chunk. -/
structure WriteCall where
  chunk : Bytes
  threw : Bool
  callbacks : List (Option WriteError)
  accepted : Bool
  deriving DecidableEq, Repr

/-- The fields, the flag of `Writable`, the `srt_close` calls made for the socket, and whether
one has succeeded. `destroys` counts for each `_destroy` the calls of its callback. -/
structure Stream where
  socket : ℤ
  fd : Option ℤ
  destroyed : Bool
  nativeCloses : ℕ
  socketClosed : Bool
  connects : ℕ
  writes : List WriteCall
  closedTwice : ℕ
  destroys : List ℕ
  deriving DecidableEq, Repr

def start (socket : ℤ) : Stream where
  socket := socket
  fd := none
  destroyed := false
  nativeCloses := 0
  socketClosed := false
  connects := 0
  writes := []
  closedTwice := 0
  destroys := []

def truthy : Option ℤ → Bool
  | none => false
  | some fd => fd ≠ 0

def Stream.nativeClose (s : Stream) (result : ℤ) : Stream :=
  { s with
    nativeCloses := s.nativeCloses + 1
    socketClosed := s.socketClosed || !throws result }

/-- `connect`. `Connect` closes the socket when it fails, whatever comes of that. -/
def Stream.connect (s : Stream) (result closeResult : ℤ) : Stream :=
  if throws result then s.nativeClose closeResult
  else
    { s with
      fd := some s.socket
      connects := if truthy (some s.socket) then s.connects + 1 else s.connects }

/-- `close`, up to where it throws. -/
def Stream.close (s : Stream) (result : ℤ) : Stream :=
  if throws result then s.nativeClose result else { s.nativeClose result with fd := none }

def Stream.writeCall (s : Stream) (chunk : Bytes) (result : ℤ) : WriteCall :=
  if truthy s.fd then
    if throws result then ⟨chunk, true, [], false⟩ else ⟨chunk, false, [none], true⟩
  else ⟨chunk, false, [some .socketWasClosed], false⟩

/-- `Writable.destroy` calls `_destroy` once, and hands an error it throws to the callback.
`_destroy` itself leaves the callback alone. -/
def Stream.destroy (s : Stream) (result : ℤ) : Stream :=
  if s.destroyed then s
  else
    { s.close result with
      destroyed := true
      destroys := s.destroys ++ [if throws result then 1 else 0] }

/-- The user's call of `close` throws because the socket is closed already. -/
def Stream.closeByUser (s : Stream) (result : ℤ) : Stream :=
  { s.close result with
    closedTwice := if throws result ∧ s.socketClosed then s.closedTwice + 1 else s.closedTwice }

inductive StreamEvent where
  | connect (result closeResult : ℤ)
  | write (chunk : Bytes) (result : ℤ)
  | close (result : ℤ)
  | destroy (result : ℤ)
  deriving DecidableEq, Repr

def Stream.next (s : Stream) : StreamEvent → Stream
  | .connect result closeResult => s.connect result closeResult
  | .write chunk result => { s with writes := s.writes ++ [s.writeCall chunk result] }
  | .close result => s.closeByUser result
  | .destroy result => s.destroy result

def machine : Machine Stream StreamEvent := ⟨fun _ _ => True, Stream.next⟩

instance (s : Stream) (e : StreamEvent) : Decidable (machine.Enabled s e) := isTrue trivial

/-! ## The contract of `_write` -/

/-- It returns, and calls its callback once, with an error just if the chunk is not taken. -/
def WriteCall.Honoured (w : WriteCall) : Prop :=
  w.threw = false ∧ ∃ err, w.callbacks = [err] ∧ (err ≠ none ↔ w.accepted = false)

/-- The native write is not made, or does not fail. -/
def WritesSucceed (s : Stream) : StreamEvent → Prop
  | .write _ result => truthy s.fd = true → throws result = false
  | .connect _ _ | .close _ | .destroy _ => True

instance (s : Stream) : (e : StreamEvent) → Decidable (WritesSucceed s e)
  | .write _ _ => inferInstanceAs (Decidable (_ → _))
  | .connect _ _ | .close _ | .destroy _ => isTrue trivial

variable {s : Stream}

theorem honoured_iff (s : Stream) (chunk : Bytes) (result : ℤ) :
    (s.writeCall chunk result).Honoured ↔ (truthy s.fd = true → throws result = false) := by
  unfold Stream.writeCall WriteCall.Honoured
  cases truthy s.fd <;> cases throws result <;> simp

theorem next_writes (s : Stream) (e : StreamEvent) :
    (∀ w ∈ (s.next e).writes, w.Honoured) ↔ (∀ w ∈ s.writes, w.Honoured) ∧ WritesSucceed s e := by
  have hsame : ∀ t : Stream, t.writes = s.writes →
      ((∀ w ∈ t.writes, w.Honoured) ↔ (∀ w ∈ s.writes, w.Honoured) ∧ True) := by
    intro t ht
    rw [ht, and_true]
  cases e with
  | connect result closeResult =>
    apply hsame
    simp only [Stream.next, Stream.connect]
    split <;> rfl
  | write chunk result =>
    simp only [Stream.next, List.forall_mem_append, List.forall_mem_singleton, honoured_iff]
    rfl
  | close result =>
    apply hsame
    simp only [Stream.next, Stream.closeByUser, Stream.close]
    split <;> rfl
  | destroy result =>
    apply hsame
    simp only [Stream.next, Stream.destroy, Stream.close]
    split_ifs <;> rfl

theorem runTrace_writes (s : Stream) (es : List StreamEvent) :
    (∀ w ∈ (machine.runTrace s es).writes, w.Honoured) ↔
      (∀ w ∈ s.writes, w.Honoured) ∧ (machine.restrict WritesSucceed).ValidTrace s es := by
  induction es generalizing s with
  | nil => exact (and_true _).symm.to_iff
  | cons e es ih =>
    have hnext := next_writes s e
    calc (∀ w ∈ (machine.runTrace s (e :: es)).writes, w.Honoured)
        ↔ (∀ w ∈ (s.next e).writes, w.Honoured) ∧
            (machine.restrict WritesSucceed).ValidTrace (s.next e) es := ih (s.next e)
      _ ↔ (∀ w ∈ s.writes, w.Honoured) ∧
            (machine.restrict WritesSucceed).ValidTrace s (e :: es) := by
          rw [hnext, and_assoc]
          exact and_congr_right fun _ => and_congr_left' (true_and _).symm.to_iff

/-- Every `_write` of a run meets the contract of a `Writable` just if no native write fails. -/
theorem writes_honoured_iff (socket : ℤ) (es : List StreamEvent) :
    (∀ w ∈ (machine.runTrace (start socket) es).writes, w.Honoured) ↔
      (machine.restrict WritesSucceed).ValidTrace (start socket) es := by
  rw [runTrace_writes]
  exact and_iff_right (by simp [start])

/-- The peer is gone when a chunk is written: `_write` throws and its callback is lost. -/
theorem failed_write_loses_callback :
    ¬ ∀ (socket : ℤ) (es : List StreamEvent),
      ∀ w ∈ (machine.runTrace (start socket) es).writes, w.Honoured := by
  intro h
  have hbad := h 7 [.connect 0 0, .write [1] SRT_ERROR] ⟨[1], true, [], false⟩ (by decide)
  exact absurd hbad.1 (by decide)

end WriteStream
