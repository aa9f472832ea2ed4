import NodeSrt.TransferReader
import NodeSrt.TransferWriter

/-! # What a transfer delivers

The messages sent are at every moment the first non-empty chunks, and the reader holds the
first of these. It has enough only when it has all of them. -/
namespace Transfer

open AsyncValues
open TransitionSystem
open AsyncApi
open OrderedPort
open Pieces
open Tools
open WriteModes
open ReadModes

/-- What the writes executed so far have put on the channel. -/
def messages (s : Writing) : List Bytes :=
  (s.sys.executed.map fun x => payload x.1).filter (!·.isEmpty)

theorem messages_of_chunks {w : WriteArgs} {s : Writing} (h : Supplied w s) :
    messages s <+: (w.chunks.map BufferView.data).filter (!·.isEmpty) := by
  have hcalls := h.sending.invariant.correlated.calls
  rw [h.posted, List.map_take.symm, List.take_take, List.map_take] at hcalls
  have hdata : (w.chunks.map (writePost w)).map payload = w.chunks.map BufferView.data := by
    rw [List.map_map]
    rfl
  have hexec : s.sys.executed.map (fun x => payload x.1) =
      (w.chunks.map BufferView.data).take (min s.sys.replies.length s.chunkIndex) := by
    rw [← hdata, ← List.map_take, ← hcalls, List.map_map]
    rfl
  rw [messages, hexec]
  exact (List.take_prefix _ _).filter _

theorem messages_exec {w : WriteArgs} {s : Writing} (h : Supplied w s) {post : AsyncSRTWorkerPost}
    {rest : List AsyncSRTWorkerPost} (hq : s.sys.toWorker = post :: rest) (ret : ReturnValue) :
    messages (s.next w (.sys (.exec (.ok ret)))) = sendMessage (messages s) (payload post) := by
  simp only [messages, Writing.next, AsyncApi.next, hq, AsyncSRT.exec, h.head_defined hq,
    Bool.false_eq_true, if_false, List.map_append, List.filter_append, sendMessage]
  cases hp : (payload post).isEmpty <;> simp [hp]

theorem writeAll_executed (w : WriteArgs) (s : Writing) (chunks : List BufferView) :
    (s.writeAll w chunks).sys.executed = s.sys.executed := by
  induction chunks generalizing s with
  | nil => rfl
  | cons chunk chunks ih => exact (ih (s.write w chunk)).trans (executed_of_not_exec rfl)

theorem messages_own {w : WriteArgs} {s : Writing} {e : WriteEvent} (ho : ownWrite e = true) :
    messages (s.next w e) = messages s := by
  have hexec : (s.next w e).sys.executed = s.sys.executed := by
    cases e with
    | sys e =>
      cases e with
      | deliver => exact executed_of_not_exec (e := .deliver) rfl
      | _ => cases ho
    | tick =>
      simp only [Writing.next, tick_eq w]
      exact writeAll_executed w _ _
    | thenWritten i threw =>
      simp only [Writing.next, Writing.thenWritten]
      repeat' split
      all_goals rfl
    | finish => rfl
    | fail i => rfl
  rw [messages, hexec, messages]

structure Delivering (w : WriteArgs) (minBytesRead size : ℕ) (t : State) : Prop where
  supplied : Supplied w t.tx
  reacted : Reacted w t.tx
  served : Served size (messages t.tx) t.channel t.rx.sys
  collected : Collected minBytesRead (messages t.tx) t.rx

theorem initial_delivering (w : WriteArgs) (minBytesRead size : ℕ) :
    Delivering w minBytesRead size initial :=
  ⟨initial_supplied w, initial_reacted w, initial_served size, initial_collected minBytesRead⟩

theorem Delivering.step {w : WriteArgs} {minBytesRead size : ℕ} {t : State} {fd : ℤ}
    (h : Delivering w minBytesRead size t) (hw : Chunked w)
    (hfit : ∀ c ∈ w.chunks, c.data.length ≤ size) {e : TransferEvent} (he : Enabled w t e) :
    Delivering w minBytesRead size (next w (readArgs fd minBytesRead size) t e) := by
  obtain ⟨hsup, hrea, hser, hcol⟩ := h
  cases e with
  | tx e =>
    have hm : messages (t.tx.next w e) = messages t.tx := messages_own he.1
    exact ⟨hsup.step hw he.1 he.2, hrea.step hsup hw he.2, hm.symm ▸ hser, hm.symm ▸ hcol⟩
  | txExec ret =>
    obtain ⟨post, rest, hq⟩ := List.exists_cons_of_ne_nil he.1
    have hm := messages_exec hsup hq ret
    have hsys : t.tx.Enabled w (.sys (.exec (.ok ret))) := by
      refine ⟨he.1, fun hd => ?_⟩
      have hheld := hsup.sending.invariant.disposal.held.mp hsup.held
      simp [hd] at hheld
    simp only [next, hq]
    exact ⟨hsup.step_exec hq he.2, hrea.step hsup hw hsys,
      hm.symm ▸ hser.extend (payload post), hm.symm ▸ hcol.extend (payload post)⟩
  | rx e =>
    cases e with
    | sys e =>
      cases e with
      | deliver =>
        obtain ⟨data, rest, hdata⟩ := List.exists_cons_of_ne_nil he.2.1
        have hf := deliver_frame t.rx.sys data
        simp only [Prod.mk.injEq] at hf
        have hn : (AsyncApi.next t.rx.sys .deliver).nextCall = t.rx.sys.nextCall := by
          simpa [AsyncApi.next, hdata] using hf.2.2.2.2.2.2.2
        exact ⟨hsup, hrea, hser.step_deliver he.2, hcol.step_sys hn⟩
      | _ => cases he.1
    | begin =>
      obtain ⟨hser', hcol'⟩ := begin_spec fd hser hcol he.2
      exact ⟨hsup, hrea, hser', hcol'⟩
    | resume threw =>
      obtain ⟨hser', hcol'⟩ := resume_spec fd hser hcol threw he.2
      exact ⟨hsup, hrea, hser', hcol'⟩
  | rxExec o =>
    cases hq : t.rx.sys.toWorker with
    | nil => simp [Enabled, ServesHead, hq] at he
    | cons post posts =>
      cases hc : t.channel with
      | nil => simp [Enabled, ServesHead, hq, hc] at he
      | cons msg msgs =>
        have hs : Serves post msg o := by simpa [Enabled, ServesHead, hq, hc] using he
        have hlen : msg.length ≤ size := by
          have hmem : msg ∈ messages t.tx :=
            List.mem_of_mem_drop (hser.channel ▸ hc ▸ List.mem_cons_self)
          have hdata := List.mem_of_mem_filter ((messages_of_chunks hsup).subset hmem)
          obtain ⟨chunk, hchunk, rfl⟩ := List.mem_map.mp hdata
          exact hfit chunk hchunk
        have hn : (AsyncApi.next t.rx.sys (.exec o)).nextCall = t.rx.sys.nextCall := by
          simp [AsyncApi.next, hq, AsyncSRT.exec]
        refine ⟨hsup, hrea, ?_, hcol.step_sys hn⟩
        simp only [next, hc, List.tail_cons]
        exact hser.step_exec hq hc hlen hs

/-- The non-empty chunks of a slicing are the pieces of the buffer. -/
theorem filter_slices {m : ℕ} (hm : 0 < m) (data : Bytes) :
    (slices m data).filter (!·.isEmpty) = pieces m data := by
  have hne : (pieces m data).filter (!·.isEmpty) = pieces m data := by
    apply List.filter_eq_self.mpr
    intro p hp
    simpa using (mem_pieces hm hp).1
  have hextra : (if m ∣ data.length then ([] : List Bytes) else [[]]).filter (!·.isEmpty) = [] := by
    split <;> rfl
  rw [slices, List.filter_append, hne, hextra, List.append_nil]

theorem mem_slices {m : ℕ} (hm : 0 < m) {data c : Bytes} (hc : c ∈ slices m data) :
    c.length ≤ m := by
  rcases List.mem_append.mp hc with hc | hc
  · exact (mem_pieces hm hc).2
  · split at hc
    · cases hc
    · rw [List.mem_singleton.mp hc]
      exact Nat.zero_le _

theorem flatten_slices {m : ℕ} (hm : 0 < m) (data : Bytes) : (slices m data).flatten = data := by
  rw [slices, List.flatten_append, flatten_pieces hm]
  split <;> simp

/-- When both sides are done the reader has the non-empty slices of the buffer, in order;
they merge into the buffer, and the sizes reported to `onWrite` add up to its length. -/
theorem transfer_delivers (mode : Mode) (fdTx fdRx : ℤ) (isBuffer : Bool) (B : Bytes)
    (m writesPerTick readBufSize : ℕ) (hm : 1 ≤ m) (hsize : m ≤ readBufSize) :
    ∃ chunks, sliceBufferToChunks B m B.length 0 = some chunks ∧
      let w := writeArgs mode fdTx isBuffer chunks writesPerTick
      ∀ t, (machine w (readArgs fdRx B.length readBufSize)).Execution initial t →
        Complete w t.tx → ∀ received, t.rx.returned = some (.fulfilled received) →
          received = chunks.filter (!·.isEmpty) ∧
          (∀ c ∈ received, c ≠ [] ∧ c.length ≤ m) ∧ received.flatten = B ∧
          copyChunksIntoBuffer received none = .ok B ∧
          (t.tx.onWrites.map fun x => reportedSize x.2.1).sum = B.length := by
  have hslice : sliceBufferToChunks B m B.length 0 = some (slices m B) := by
    have h : sliceBufferToChunks B m B.length (0 : ℕ) = _ := sliceBufferToChunks_eq hm (by omega)
    simpa using h
  refine ⟨slices m B, hslice, ?_⟩
  intro w t ht hcomplete received hreceived
  have hdata : w.chunks.map BufferView.data = slices m B :=
    writeArgs_data mode fdTx isBuffer (slices m B) writesPerTick
  have hfit : ∀ c ∈ w.chunks, c.data.length ≤ readBufSize := by
    intro c hc
    have hmem : c.data ∈ slices m B := hdata ▸ List.mem_map_of_mem hc
    exact (mem_slices hm hmem).trans hsize
  have hinv : Delivering w B.length readBufSize t :=
    ht.invariant (initial_delivering w _ _) fun _ _ hu he =>
      hu.step (writeArgs_chunked mode fdTx isBuffer (slices m B) writesPerTick) hfit he
  obtain ⟨hsup, hrea, _, hcol⟩ := hinv
  have hprefix : t.rx.chunks <+: pieces m B := by
    have h := hcol.chunks.trans (messages_of_chunks hsup)
    rwa [hdata, filter_slices hm] at h
  have hall : t.rx.chunks = received ∧ B.length ≤ t.rx.chunks.flatten.length := by
    cases hcol.phase with
    | idle _ _ _ returned => rw [returned] at hreceived; cases hreceived
    | awaiting _ _ _ returned => rw [returned] at hreceived; cases hreceived
    | done _ _ _ returned enough =>
      rw [returned] at hreceived
      have hb := hcol.bytes
      exact ⟨by simpa using hreceived, by omega⟩
  have hpieces : received = pieces m B := by
    rw [← hall.1]
    apply eq_of_prefix_of_flatten_length hprefix (fun q hq => (mem_pieces hm hq).1)
    rw [flatten_pieces hm]
    exact hall.2
  have hmem : ∀ c ∈ received, c ≠ [] ∧ c.length ≤ m := by
    intro c hc
    exact mem_pieces hm (hpieces ▸ hc)
  have hflat : received.flatten = B := by rw [hpieces, flatten_pieces hm]
  refine ⟨hpieces.trans (filter_slices hm B).symm, hmem, hflat, ?_, ?_⟩
  · rw [copyChunksIntoBuffer_eq fun c hc => (hmem c hc).1, hflat]
  · rw [sum_reported hrea hsup hcomplete, hdata, flatten_slices hm]

/-- Three bytes in chunks of two, so that the last chunk is empty. -/
def threeBytes : WriteArgs := writeArgs .yieldingLoop 1 true [[1, 2], [3], []] 1

def threeBytesRun : List TransferEvent :=
  [.tx .tick, .rx .begin, .txExec (.number 2), .tx (.sys .deliver), .tx (.thenWritten 0 false),
    .tx .tick, .txExec (.number 1), .rxExec (.ok (.bytes [1, 2])), .rx (.sys .deliver),
    .rx (.resume false), .tx (.sys .deliver), .tx (.thenWritten 1 true), .tx .tick,
    .txExec (.number 0), .tx (.sys .deliver), .tx (.thenWritten 2 false), .tx .finish,
    .rxExec (.ok (.bytes [3])), .rx (.sys .deliver), .rx (.resume false)]

theorem transfer_delivers_threeBytes :
    let t := (machine threeBytes (readArgs 2 3 2)).runTrace initial threeBytesRun
    copyChunksIntoBuffer [[1, 2], [3]] none = .ok [1, 2, 3] ∧
      (t.tx.onWrites.map fun x => reportedSize x.2.1).sum = 3 := by
  obtain ⟨chunks, hslice, h⟩ :=
    transfer_delivers .yieldingLoop 1 2 true [1, 2, 3] 2 1 2 (by decide) (by decide)
  have hchunks : chunks = [[1, 2], [3], []] :=
    Option.some.inj (hslice.symm.trans (by decide))
  subst hchunks
  obtain ⟨_, _, _, hmerge, hsum⟩ :=
    h _ ((machine threeBytes (readArgs 2 3 2)).execution_of_trace _ threeBytesRun (by decide))
      (show isFulfilled _ = true by decide) [[1, 2], [3]] (by decide)
  exact ⟨hmerge, hsum⟩

end Transfer
