import NodeSrt.Link
import NodeSrt.ReadStream
import NodeSrt.WriteStream

/-! # From a write stream to a read stream

An `SRTWriteStream` and an `SRTReadStream` whose sockets are connected in the message mode of
libsrt. A successful native write of a chunk that is not empty makes a message; a native read
takes the oldest message, and as much of it as it asks for. Messages keep their order and none
comes twice, but libsrt may drop one that is late, and the connection may break at any time; then
native writes fail. -/
namespace StreamTransfer

open TransitionSystem
open AsyncValues
open ReadStream (Recvmsg)

/-- `size` is what the native reads ask for. A message taken is kept with the size of its read. -/
structure State where
  tx : WriteStream.Stream
  rx : ReadStream.Stream
  channel : List Bytes
  size : ℕ
  taken : List (Bytes × ℕ)
  dropped : Bool
  broken : Bool

def start (txSocket rxSocket : ℤ) : State where
  tx := WriteStream.start txSocket
  rx := ReadStream.start rxSocket
  channel := []
  size := 0
  taken := []
  dropped := false
  broken := false

inductive Event where
  | tx (e : WriteStream.StreamEvent)
  | rx (e : ReadStream.StreamEvent)
  | drop (position : ℕ)
  | sever (arriving : ℕ)
  deriving DecidableEq, Repr

/-- The message that an event of the write stream makes. -/
def posts (s : WriteStream.Stream) : WriteStream.StreamEvent → List Bytes
  | .write chunk result =>
    if (s.writeCall chunk result).accepted && !chunk.isEmpty then [chunk] else []
  | .connect _ _ | .close _ | .destroy _ => []

def takes : ReadStream.StreamEvent → Option Bytes
  | .recvmsg (.message data) _ _ => some data
  | _ => none

/-- Each native read of `_readSocketAndPush(bytes)` asks for `bytes`. -/
def asks (size : ℕ) : ReadStream.StreamEvent → ℕ
  | .read bytes | .timer _ bytes => bytes.toNat
  | _ => size

def cut (message : Bytes × ℕ) : Bytes := message.1.take message.2

def State.oldest (s : State) : Option (Bytes × ℕ) := s.channel.head?.map (·, s.size)

def Enabled (s : State) : Event → Prop
  | .tx e => posts s.tx e ≠ [] → s.broken = false
  | .rx e => s.rx.Enabled e ∧ ∀ data ∈ takes e, s.oldest.map cut = some data
  | .drop _ | .sever _ => True

instance (s : State) : (e : Event) → Decidable (Enabled s e)
  | .tx _ => inferInstanceAs (Decidable (_ → _))
  | .rx _ => inferInstanceAs (Decidable (_ ∧ _))
  | .drop _ | .sever _ => isTrue trivial

def next (s : State) : Event → State
  | .tx e => { s with tx := s.tx.next e, channel := s.channel ++ posts s.tx e }
  | .rx e =>
    { s with
      rx := s.rx.next e
      channel := if (takes e).isSome then s.channel.tail else s.channel
      size := asks s.size e
      taken := if (takes e).isSome then s.taken ++ s.oldest.toList else s.taken }
  | .drop position => { s with channel := s.channel.eraseIdx position, dropped := true }
  | .sever arriving => { s with channel := s.channel.take arriving, broken := true }

def machine : Machine State Event := ⟨Enabled, next⟩

instance (s : State) (e : Event) : Decidable (machine.Enabled s e) :=
  inferInstanceAs (Decidable (Enabled s e))

/-! ## What `_write` has acknowledged -/

end StreamTransfer
