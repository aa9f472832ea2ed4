import Mathlib.Algebra.Ring.Int.Defs
import NodeSrt.ReaderWriter
import NodeSrt.WriteModesSent

/-! # A transfer between two connected sockets

A write loop on one instance and `readChunks` on another, with a channel of messages
between their workers. Each instance is used by this transfer alone. A write appends its
payload unless it is empty, a read takes the oldest message. -/
namespace Transfer

open AsyncValues
open TransitionSystem
open AsyncApi
open OrderedPort
open Pieces
open Tools
open WriteModes
open ReadModes

structure State where
  tx : Writing
  rx : Reading
  channel : List Bytes

def initial : State := ⟨.initial, .initial, []⟩

/-- The bytes a write hands to the native socket. -/
def payload (post : AsyncSRTWorkerPost) : Bytes :=
  match post.args with
  | [_, .bytes v] => v.data
  | _ => []

/-- A successful native write: an empty payload makes no message. -/
def sendMessage (channel : List Bytes) (data : Bytes) : List Bytes :=
  if data.isEmpty then channel else channel ++ [data]

def requestedSize (post : AsyncSRTWorkerPost) : Option ℤ :=
  match post.args with
  | [_, .number size] => some size
  | _ => none

/-- A native read gives the oldest message whole when it fits into the requested size. -/
def Serves (post : AsyncSRTWorkerPost) (msg : Bytes) (o : Outcome) : Prop :=
  ∀ size ∈ requestedSize post, msg.length ≤ size → o = .ok (.bytes msg)

/-- A read at the head of the port is executed when there is a message for it. -/
def ServesHead : List AsyncSRTWorkerPost → List Bytes → Outcome → Prop
  | post :: _, msg :: _, o => Serves post msg o
  | _, _, _ => False

instance : (posts : List AsyncSRTWorkerPost) → (channel : List Bytes) → (o : Outcome) →
    Decidable (ServesHead posts channel o)
  | post :: _, msg :: _, o =>
    inferInstanceAs (Decidable (∀ size ∈ requestedSize post, msg.length ≤ size → o = _))
  | [], _, _ => isFalse id
  | _ :: _, [], _ => isFalse id

inductive TransferEvent where
  | tx (e : WriteEvent)
  | txExec (r : ReturnValue)
  | rx (e : ReadEvent)
  | rxExec (o : Outcome)

/-- The steps of a loop and the arrival of replies, without other uses of the instance. -/
def ownWrite : WriteEvent → Bool
  | .sys .deliver => true
  | .sys _ => false
  | _ => true

def ownRead : ReadEvent → Bool
  | .sys .deliver => true
  | .sys _ => false
  | _ => true

variable (w : WriteArgs) (r : ReadArgs)

/-- Every write succeeds, and a read waits for a message. -/
def Enabled (s : State) : TransferEvent → Prop
  | .tx e => ownWrite e = true ∧ s.tx.Enabled w e
  | .txExec ret => s.tx.sys.toWorker ≠ [] ∧ ret ≠ .number SRT_ERROR
  | .rx e => ownRead e = true ∧ s.rx.Enabled e
  | .rxExec o => ServesHead s.rx.sys.toWorker s.channel o

instance (s : State) : (e : TransferEvent) → Decidable (Enabled w s e)
  | .tx _ => inferInstanceAs (Decidable (_ ∧ _))
  | .txExec _ => inferInstanceAs (Decidable (_ ∧ _))
  | .rx _ => inferInstanceAs (Decidable (_ ∧ _))
  | .rxExec _ => inferInstanceAs (Decidable (ServesHead _ _ _))

def next (s : State) : TransferEvent → State
  | .tx e => { s with tx := s.tx.next w e }
  | .txExec ret =>
    match s.tx.sys.toWorker with
    | post :: _ =>
      { s with
        tx := s.tx.next w (.sys (.exec (.ok ret)))
        channel := sendMessage s.channel (payload post) }
    | [] => s
  | .rx e => { s with rx := s.rx.next r e }
  | .rxExec o => { s with rx := s.rx.next r (.sys (.exec o)), channel := s.channel.tail }

def machine : Machine State TransferEvent := ⟨Enabled w, next w r⟩

instance (s : State) (e : TransferEvent) : Decidable ((machine w r).Enabled s e) :=
  inferInstanceAs (Decidable (Enabled w s e))

/-- The write loop is done: its promise has fulfilled, or, where it gives none, its interval
is cleared and every write has been reacted to. -/
def Complete (s : Writing) : Prop :=
  match w.mode with
  | .yieldingLoop => isFulfilled s.returned = true
  | .explicitScheduling => s.interval = false ∧ ∀ i < s.chunkIndex, i ∈ s.handled

/-- `writeChunks(B, writesPerTick, mtuSize, onWrite)` up to its slices, each of which has an
`ArrayBuffer` of its own, or the other write mode on the same slices. -/
def writeArgs (mode : Mode) (fd : ℤ) (isBuffer : Bool) (slices : List Bytes)
    (writesPerTick : ℕ) : WriteArgs :=
  ⟨mode, .number fd, slices.mapIdx fun i data => ⟨isBuffer, ⟨i, .moved⟩, data⟩, true, writesPerTick⟩

def readArgs (fd : ℤ) (minBytesRead : ℕ) (readBufSize : ℕ) : ReadArgs :=
  ⟨.number fd, minBytesRead, .number readBufSize, false, false⟩

/-- These are the calls that `AsyncReaderWriter` makes. -/
theorem calls_of_readerWriter (fd : ℤ) (isBuffer : Bool) (buffer : Bytes)
    (writesPerTick mtuSize minBytesRead readBufSize : ℕ) :
    ReaderWriter.writeChunks (.number fd) isBuffer buffer writesPerTick mtuSize true =
        (Tools.sliceBufferToChunks buffer mtuSize buffer.length 0).map
          (writeArgs .yieldingLoop fd isBuffer · writesPerTick) ∧
      ReaderWriter.readChunks (.number fd) minBytesRead readBufSize =
        readArgs fd minBytesRead readBufSize :=
  ⟨rfl, rfl⟩

end Transfer
