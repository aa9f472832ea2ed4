import NodeSrt.ReadModes
import NodeSrt.Tools
import NodeSrt.WriteModes

/-! # AsyncReaderWriter

The two methods of `async-reader-writer.ts` only fill in defaults and call the yielding loop
and the read loop. -/
namespace ReaderWriter

open AsyncValues
open WriteModes
open ReadModes

def DEFAULT_MTU_SIZE : ℕ := 1316

def DEFAULT_WRITES_PER_TICK : ℕ := 128

def DEFAULT_READ_BUFFER : ℕ := READ_BUF_SIZE

/-- The call of the yielding loop; each slice has an `ArrayBuffer` of its own. -/
def writeChunks (fd : JSValue) (isBuffer : Bool) (buffer : Bytes)
    (writesPerTick : ℕ := DEFAULT_WRITES_PER_TICK) (mtuSize : ℕ := DEFAULT_MTU_SIZE)
    (onWrite : Bool := false) : Option WriteArgs :=
  (Tools.sliceBufferToChunks buffer mtuSize buffer.length 0).map fun chunks =>
    ⟨.yieldingLoop, fd, chunks.mapIdx fun i data => ⟨isBuffer, ⟨i, .moved⟩, data⟩, onWrite,
      writesPerTick⟩

def readChunks (fd : JSValue) (minBytesRead : ℤ := DEFAULT_MTU_SIZE)
    (readBufSize : ℕ := DEFAULT_READ_BUFFER) (onRead : Bool := false) (onError : Bool := false) :
    ReadArgs :=
  ⟨fd, minBytesRead, .number readBufSize, onRead, onError⟩

theorem mode_of_writeChunks {fd : JSValue} {isBuffer : Bool} {buffer : Bytes}
    {writesPerTick mtuSize : ℕ} {onWrite : Bool} {p : WriteArgs}
    (h : writeChunks fd isBuffer buffer writesPerTick mtuSize onWrite = some p) :
    p.mode = .yieldingLoop := by
  obtain ⟨chunks, -, rfl⟩ := Option.map_eq_some_iff.mp h
  rfl

end ReaderWriter
