import NodeSrt.WriteModes

/-! # Only chunks that were sent are reported

Along the runs in which no write meets a disposing instance and no `postMessage` throws,
every reaction that calls `onWrite` or bumps `chunkWrittenIdx` belongs to a chunk the worker
has written. -/
namespace WriteModes

open AsyncValues
open TransitionSystem
open AsyncApi
open OrderedPort

variable (p : WriteArgs)

/-- The writes of the loop and of the other users of the instance all meet `SendsWrites`. -/
def SendsChunks (s : Writing) : WriteEvent → Prop
  | .sys e => SendsWrites s.sys e
  | .tick => (sendingMachine Unit).ValidTrace s.sys ((s.tickChunks p).map p.writeCall)
  | _ => True

instance (s : Writing) : (e : WriteEvent) → Decidable (SendsChunks p s e)
  | .sys e => inferInstanceAs (Decidable (SendsWrites s.sys e))
  | .tick => inferInstanceAs (Decidable (Machine.ValidTrace _ _ _))
  | .thenWritten _ _ | .finish | .fail _ => isTrue trivial

def sendingWriter : Machine Writing WriteEvent := (writingMachine p).restrict (SendsChunks p)

instance (s : Writing) (e : WriteEvent) : Decidable ((sendingWriter p).Enabled s e) :=
  inferInstanceAs (Decidable (s.Enabled p e ∧ SendsChunks p s e))

/-- The chunk at an index was executed by the worker with success. -/
def ChunkSent (s : Writing) (i : ℕ) (chunk : BufferView) : Prop :=
  p.chunks[i]? = some chunk ∧ Sent s.sys p.socketFd (.bytes chunk)

structure Tracked (s : Writing) : Prop where
  issued : s.whenWritten.length = s.chunkIndex
  calls : ∀ i j : ℕ, s.whenWritten[i]? = some j → ∃ (w : WriteCall) (chunk : BufferView),
    s.sys.writes[j]? = some w ∧ p.chunks[i]? = some chunk ∧ w.socket = p.socketFd ∧
      w.chunk = .bytes chunk
  reported : ∀ x ∈ s.onWrites, ∃ chunk, ChunkSent p s x.1 chunk ∧
    x.2.1 = .number chunk.data.length
  counted : ∀ i ∈ s.counted, ∃ chunk, ChunkSent p s i chunk
  distinct : s.counted.Nodup ∧ ∀ i ∈ s.counted, i ∈ s.handled
  index : s.chunkWrittenIdx = s.counted.length

variable {p} {s : Writing}

theorem initial_tracked : Tracked p Writing.initial := by
  constructor <;> simp [Writing.initial]

namespace Tracked

theorem extend {t : Writing} (h : Tracked p s) (hx : Extends s.sys t.sys)
    (he : (t.chunkIndex, t.chunkWrittenIdx, t.whenWritten, t.handled, t.counted, t.onWrites) =
      (s.chunkIndex, s.chunkWrittenIdx, s.whenWritten, s.handled, s.counted, s.onWrites)) :
    Tracked p t := by
  cases s
  cases t
  simp only [Prod.mk.injEq] at he
  obtain ⟨rfl, rfl, rfl, rfl, rfl, rfl⟩ := he
  refine { h with calls := ?_, reported := ?_, counted := ?_ }
  · intro i j hj
    obtain ⟨w, chunk, hw, hrest⟩ := h.calls i j hj
    exact ⟨w, chunk, getElem?_of_prefix hx.writes hw, hrest⟩
  · intro x hmem
    obtain ⟨chunk, ⟨hc, hs⟩, hn⟩ := h.reported x hmem
    exact ⟨chunk, ⟨hc, hs.mono hx⟩, hn⟩
  · intro i hi
    obtain ⟨chunk, hc, hs⟩ := h.counted i hi
    exact ⟨chunk, hc, hs.mono hx⟩

theorem step_write (h : Tracked p s) {chunk : BufferView}
    (hc : p.chunks[s.chunkIndex]? = some chunk) : Tracked p (s.write p chunk) := by
  obtain ⟨n, r, hw⟩ := write_recorded s.sys p.socketFd (.bytes chunk) false ()
  have hx := (step_extends s.sys (p.writeCall chunk)).1
  have h' : Tracked p { s with sys := AsyncApi.next s.sys (p.writeCall chunk) } :=
    h.extend hx rfl
  refine { h' with issued := by simp [Writing.write, h.issued], calls := ?_ }
  intro i j hj
  rcases getElem?_concat_cases hj with hj | ⟨rfl, rfl⟩
  · exact h'.calls i j hj
  · refine ⟨⟨p.socketFd, .bytes chunk, n, r⟩, chunk, ?_, h.issued ▸ hc, rfl, rfl⟩
    show (s.sys.apiCall _ _ _).1.writes[_]? = _
    rw [hw, List.getElem?_concat_length]

theorem step_writeAll {chunks : List BufferView} (h : Tracked p s)
    (hc : chunks <+: p.chunks.drop s.chunkIndex) : Tracked p (s.writeAll p chunks) := by
  induction chunks generalizing s with
  | nil => exact h
  | cons chunk chunks ih =>
    obtain ⟨rest, hrest⟩ := hc
    obtain ⟨hget, hdrop⟩ := drop_eq_cons hrest.symm
    exact ih (h.step_write hget) ⟨rest, hdrop.symm⟩

theorem step_tick (h : Tracked p s) : Tracked p (s.tick p) := by
  have hs : Tracked p { s with tickStart := s.chunkIndex } := h.extend (.refl _) rfl
  have hall : Tracked p (Writing.writeAll p _ (s.tickChunks p)) :=
    hs.step_writeAll (List.take_prefix _ _)
  rw [tick_eq]
  exact hall.extend (.refl _) rfl

theorem sent_of_fulfilled (h : Tracked p s) (hs : Sending s.sys) {i : ℕ} {n : ReturnValue}
    (hi : s.promiseOf i = .fulfilled n) :
    ∃ chunk, ChunkSent p s i chunk ∧ n = .number chunk.data.length := by
  cases hj : s.whenWritten[i]? with
  | none => simp [Writing.promiseOf, hj] at hi
  | some j =>
    obtain ⟨w, chunk, hw, hc, hfd, hchunk⟩ := h.calls i j hj
    simp only [Writing.promiseOf, hj, hw] at hi
    have hcases := hs.promise_cases (List.mem_of_getElem? hw)
    rw [hi, hfd, hchunk] at hcases
    exact ⟨chunk, ⟨hc, hcases.1⟩, hcases.2.2 chunk rfl⟩

theorem step_thenWritten (h : Tracked p s) (hs : Sending s.sys) {i : ℕ} (hi : i ∉ s.handled)
    (threw : Bool) : Tracked p (s.thenWritten p i threw) := by
  have hnot : i ∉ s.counted := fun hmem => hi (h.distinct.2 i hmem)
  have hhandled : Tracked p { s with handled := s.handled ++ [i] } :=
    { h with
        distinct := ⟨h.distinct.1, fun j hj => List.mem_append_left _ (h.distinct.2 j hj)⟩ }
  cases hp : s.promiseOf i with
  | pending => simpa [Writing.thenWritten, hp] using h
  | rejected e => simpa [Writing.thenWritten, hp] using hhandled
  | fulfilled n =>
    obtain ⟨chunk, hsent, hn⟩ := h.sent_of_fulfilled hs hp
    simp only [Writing.thenWritten, hp]
    split
    · exact hhandled
    · have hreport : ∀ x ∈ (if p.onWrite = true then s.onWrites ++ [(i, n, s.chunkWrittenIdx)]
          else s.onWrites), ∃ chunk, ChunkSent p s x.1 chunk ∧
            x.2.1 = .number chunk.data.length := by
        intro x hx
        split at hx
        · rcases List.mem_append.mp hx with hx | hx
          · exact h.reported x hx
          · rw [List.mem_singleton.mp hx]
            exact ⟨chunk, hsent, hn⟩
        · exact h.reported x hx
      split
      · exact { h with reported := hreport, distinct := hhandled.distinct }
      · refine ⟨h.issued, h.calls, hreport, ?_, ⟨?_, ?_⟩, by simp [h.index]⟩
        · intro j hj
          rcases List.mem_append.mp hj with hj | hj
          · exact h.counted j hj
          · rw [List.mem_singleton.mp hj]
            exact ⟨chunk, hsent⟩
        · exact List.nodup_append.mpr ⟨h.distinct.1, List.nodup_singleton _,
            fun a ha b hb hab => hnot (List.mem_singleton.mp hb ▸ hab ▸ ha)⟩
        · intro j hj
          rcases List.mem_append.mp hj with hj | hj
          · exact List.mem_append_left _ (h.distinct.2 j hj)
          · exact List.mem_append_right _ hj

theorem step (h : Tracked p s) (hs : Sending s.sys) {e : WriteEvent} (he : s.Enabled p e) :
    Tracked p (s.next p e) := by
  cases e with
  | sys e => exact h.extend (step_extends s.sys e).1 rfl
  | tick => exact h.step_tick
  | thenWritten i threw => exact h.step_thenWritten hs he.2 threw
  | finish => exact h.extend (.refl _) rfl
  | fail i => exact h.extend (.refl _) rfl

end Tracked

theorem sys_execution {e : WriteEvent} (he : (sendingWriter p).Enabled s e) :
    (sendingMachine Unit).Execution s.sys (s.next p e).sys := by
  cases e with
  | sys e => exact .step ⟨he.1, he.2⟩
  | tick =>
    have hsys : (s.tick p).sys =
        (sendingMachine Unit).runTrace s.sys ((s.tickChunks p).map p.writeCall) := by
      rw [tick_eq]
      exact (writeAll_sys p _ _).trans (Machine.runTrace_restrict _ _ _).symm
    show (sendingMachine Unit).Execution s.sys (s.tick p).sys
    rw [hsys]
    exact (sendingMachine Unit).execution_of_trace _ _ he.2
  | thenWritten i threw =>
    have : (s.thenWritten p i threw).sys = s.sys := by
      simp only [Writing.thenWritten]
      repeat' split
      all_goals rfl
    show (sendingMachine Unit).Execution s.sys (s.thenWritten p i threw).sys
    rw [this]
    exact .refl _
  | finish => exact .refl _
  | fail i => exact .refl _

theorem sys_sending {t : Writing} (h : (sendingMachine Unit).Execution s.sys t.sys)
    (hs : Sending s.sys) : Sending t.sys :=
  h.invariant hs fun _ _ hu he => hu.step he

theorem execution_tracked (h : (sendingWriter p).Execution .initial s) :
    Sending s.sys ∧ Tracked p s :=
  h.invariant (I := fun s => Sending s.sys ∧ Tracked p s)
    ⟨⟨initial_invariant, initial_written⟩, initial_tracked⟩ fun _ _ hu he =>
      ⟨sys_sending (sys_execution he) hu.1, hu.2.step hu.1 he.1⟩

/-- The chunks whose worker write succeeded, as `Sent` says, bound what is counted. -/
theorem counted_le (h : Tracked p s) :
    ∃ sent : List ℕ, s.chunkWrittenIdx = sent.length ∧ sent.Nodup ∧
      ∀ i ∈ sent, ∃ chunk, ChunkSent p s i chunk :=
  ⟨s.counted, h.index, h.distinct.1, h.counted⟩

/-- As long as `postMessage` does not throw and no write meets a disposing instance, a
write fulfils only if the worker executed it with success, with the length of its chunk,
and otherwise rejects, as soon as its reply has come. Then a loop calls `onWrite` for and
counts only chunks that were sent. -/
theorem fulfilled_write_was_sent {κ : Type*} :
    (∀ s : AsyncSRT κ, (sendingMachine κ).Execution AsyncApi.initial s →
      ∀ w ∈ s.writes, match w.promise s with
        | .fulfilled n => Sent s w.socket w.chunk ∧ n = w.byteLength ∧
            ∀ v, w.chunk = .bytes v → n = .number v.data.length
        | .rejected _ => True
        | .pending => ∃ k, w.awaited = .promise k ∧ s.answered ≤ k ∧ k < s.posted.length ∧
            s.worker = true) ∧
    ∀ (p : WriteArgs) (s : Writing), (sendingWriter p).Execution .initial s →
      (∀ x ∈ s.onWrites, ∃ chunk, ChunkSent p s x.1 chunk ∧ x.2.1 = .number chunk.data.length) ∧
      ∃ sent : List ℕ, s.chunkWrittenIdx = sent.length ∧ sent.Nodup ∧
        ∀ i ∈ sent, ∃ chunk, ChunkSent p s i chunk := by
  constructor
  · intro s h w hw
    exact (execution_sending h).promise_cases hw
  · intro p s h
    obtain ⟨_, ht⟩ := execution_tracked h
    exact ⟨ht.reported, counted_le ht⟩

/-- Two chunks, two writes a tick, one of which fails. -/
def twoChunks : WriteArgs :=
  ⟨.yieldingLoop, .number 1, [⟨true, ⟨0, .moved⟩, [1, 2]⟩, ⟨true, ⟨1, .moved⟩, [3]⟩], true, 2⟩

def twoChunksRun : List WriteEvent :=
  [.tick, .sys (.exec (.error ⟨[]⟩)), .sys (.exec (.ok (.number 1))), .sys .deliver,
    .sys .deliver, .thenWritten 0 false, .thenWritten 1 false, .fail 0]

theorem fulfilled_write_was_sent_twoChunks :
    ∃ chunk, ChunkSent twoChunks ((sendingWriter twoChunks).runTrace .initial twoChunksRun)
      1 chunk ∧ ReturnValue.number 1 = .number chunk.data.length :=
  ((@fulfilled_write_was_sent Unit).2 twoChunks _
    ((sendingWriter twoChunks).execution_of_trace _ twoChunksRun
      (by decide))).1 (1, .number 1, 0) (by decide)

/-- `dispose` waits for an accept when a chunk is written: nothing is posted. -/
def disposingWrite : List (Event Unit) :=
  [.call (.accept (.number 1) false 0) false (), .dispose,
    .call (.write (.number 1) (.bytes ⟨true, ⟨0, .moved⟩, [1, 2]⟩)) false ()]

/-- The write fulfils with the length of a chunk that was never sent. -/
theorem unsent_write_fulfils :
    ¬ ∀ s : AsyncSRT Unit, Reachable s → ∀ w ∈ s.writes, ∀ n, w.promise s = .fulfilled n →
      Sent s w.socket w.chunk := by
  intro h
  have hr : Reachable ((machine Unit).runTrace AsyncApi.initial disposingWrite) :=
    (machine Unit).execution_of_trace _ disposingWrite (by decide)
  obtain ⟨r, hmem, _⟩ := h _ hr ⟨.number 1, .bytes ⟨true, ⟨0, .moved⟩, [1, 2]⟩, .number 2, .undefined⟩
    (by decide) (.number 2) (by decide)
  exact List.not_mem_nil hmem

end WriteModes
