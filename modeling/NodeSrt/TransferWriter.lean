import NodeSrt.Transfer
import Mathlib.Algebra.BigOperators.Group.List.Basic

/-! # The writing side of a transfer

The chunks are posted in order, each once, and none of their writes can fail. -/
namespace Transfer

open AsyncValues
open TransitionSystem
open AsyncApi
open OrderedPort
open WriteModes

/-- What the slicing gives: a numbered socket, and a buffer of its own for each chunk. -/
structure Chunked (w : WriteArgs) : Prop where
  socket : ∃ fd, w.socketFd = .number fd
  buffers : ∀ (i : ℕ) (chunk : BufferView), w.chunks[i]? = some chunk →
    chunk.buffer = ⟨i, .moved⟩
  onWrite : w.onWrite = true

theorem writeArgs_chunked (mode : Mode) (fd : ℤ) (isBuffer : Bool) (slices : List Bytes)
    (writesPerTick : ℕ) : Chunked (writeArgs mode fd isBuffer slices writesPerTick) where
  socket := ⟨fd, rfl⟩
  buffers := by
    intro i chunk h
    simp only [writeArgs, List.getElem?_mapIdx] at h
    obtain ⟨data, _, rfl⟩ := Option.map_eq_some_iff.mp h
    rfl
  onWrite := rfl

theorem writeArgs_data (mode : Mode) (fd : ℤ) (isBuffer : Bool) (slices : List Bytes)
    (writesPerTick : ℕ) :
    (writeArgs mode fd isBuffer slices writesPerTick).chunks.map BufferView.data = slices := by
  apply List.ext_getElem?
  intro i
  cases h : slices[i]? <;> simp [writeArgs, List.getElem?_mapIdx, h]

def writePost (w : WriteArgs) (chunk : BufferView) : AsyncSRTWorkerPost :=
  ⟨.write, [w.socketFd, .bytes chunk]⟩

/-- Where the port of the writing side stands: the first `chunkIndex` chunks are posted. -/
structure Supplied (w : WriteArgs) (s : Writing) : Prop where
  sending : Sending s.sys
  tracked : Tracked w s
  held : s.sys.worker = true
  undisposed : s.sys.startedToDispose = false
  detached : ∀ b ∈ s.sys.detached, b.id < s.chunkIndex
  bound : s.chunkIndex ≤ w.chunks.length
  posted : s.sys.posted.map Prod.snd = (w.chunks.take s.chunkIndex).map (writePost w)
  calls : s.whenWritten = List.range s.chunkIndex
  awaited : s.sys.writes.map WriteCall.awaited = (List.range s.chunkIndex).map .promise
  outcomes : ∀ x ∈ s.sys.executed, ∃ ret, x.2 = .ok ret ∧ ret ≠ .number SRT_ERROR

/-- The reactions run once for each chunk, and all of them call `onWrite`. -/
structure Reacted (w : WriteArgs) (s : Writing) : Prop where
  reported : s.onWrites.map Prod.fst = s.handled
  distinct : s.handled.Nodup
  issued : ∀ i ∈ s.handled, i < s.chunkIndex
  ticks : w.mode = .yieldingLoop → ∀ i < s.tickStart, i ∈ s.handled
  returned : isFulfilled s.returned = true → w.mode = .yieldingLoop ∧
    w.chunks.length ≤ s.chunkIndex ∧ ∀ i < s.chunkIndex, i ∈ s.handled
  cleared : s.interval = false → w.chunks.length ≤ s.chunkIndex

theorem initial_supplied (w : WriteArgs) : Supplied w Writing.initial where
  sending := ⟨initial_invariant, initial_written⟩
  tracked := initial_tracked
  held := rfl
  undisposed := rfl
  detached := by simp [Writing.initial, AsyncApi.initial]
  bound := Nat.zero_le _
  posted := by simp [Writing.initial, AsyncApi.initial]
  calls := rfl
  awaited := rfl
  outcomes := by simp [Writing.initial, AsyncApi.initial]

theorem initial_reacted (w : WriteArgs) : Reacted w Writing.initial := by
  constructor <;> simp [Writing.initial, isFulfilled]

namespace Supplied

variable {w : WriteArgs} {s : Writing}

theorem frame {t : Writing} (h : Supplied w s) (ht : Tracked w t)
    (he : (t.sys, t.chunkIndex, t.whenWritten) = (s.sys, s.chunkIndex, s.whenWritten)) :
    Supplied w t := by
  cases s
  cases t
  simp only [Prod.mk.injEq] at he
  obtain ⟨rfl, rfl, rfl⟩ := he
  exact { h with tracked := ht }

theorem transferList_write (fd : ℤ) (chunk : BufferView) :
    extractTransferListFromParams (ApiCall.write (.number fd) (.bytes chunk)).post.args =
      [chunk.buffer] := rfl

theorem movedBuffers_write (fd : ℤ) {chunk : BufferView} (h : chunk.buffer.transfer = .moved) :
    movedBuffers (ApiCall.write (.number fd) (.bytes chunk)).post.args = [chunk.buffer] := by
  rw [movedBuffers, transferList_write]
  simp [h]

theorem accepts (h : Supplied w s) (hw : Chunked w) {chunk : BufferView}
    (hc : w.chunks[s.chunkIndex]? = some chunk) :
    Accepts s.sys (.write w.socketFd (.bytes chunk)) := by
  obtain ⟨fd, hfd⟩ := hw.socket
  have hb := hw.buffers _ _ hc
  rw [hfd]
  refine ⟨⟨rfl, h.held, h.undisposed, rfl⟩, rfl, ?_, ?_, ?_⟩
  · simp [ApiCall.post, JSValue.Cloneable]
  · intro b hmem
    rw [transferList_write, List.mem_singleton] at hmem
    rw [hmem, hb]
    exact ⟨by simp, fun hdet => lt_irrefl _ (h.detached _ hdet)⟩
  · rw [movedBuffers_write fd (by rw [hb])]
    exact List.nodup_singleton _

theorem step_write (h : Supplied w s) (hw : Chunked w) {chunk : BufferView}
    (hc : w.chunks[s.chunkIndex]? = some chunk) : Supplied w (s.write w chunk) := by
  have ha := h.accepts hw hc
  have hlt := (List.getElem?_eq_some_iff.mp hc).1
  have hcorr := h.sending.invariant.correlated
  have hnext : s.sys.nextCall = s.chunkIndex := by
    have hlen := congrArg List.length h.posted
    simp only [List.length_map, List.length_take] at hlen
    rw [← hcorr.posted_length]
    omega
  have hcall : AsyncApi.next s.sys (w.writeCall chunk) =
      (s.sys.accept (.write w.socketFd (.bytes chunk)) false ()).recordWrite
        [⟨w.socketFd, .bytes chunk, .number (chunk.byteLength s.sys.detached),
          .promise s.sys.nextCall⟩] := by
    simp only [AsyncApi.next, WriteArgs.writeCall, apiCall_of_accepts ha, ApiCall.writeFrame,
      ApiCall.byteLength]
  have hsend : (sendingMachine Unit).Enabled s.sys (w.writeCall chunk) :=
    ⟨trivial, ha.not_throws, fun hd => by simp [h.undisposed] at hd⟩
  refine ⟨h.sending.step hsend, h.tracked.step_write hc, ?_, ?_, ?_, hlt, ?_, ?_, ?_, ?_⟩
  · simp only [Writing.write, hcall]
    exact h.held
  · simp only [Writing.write, hcall]
    exact h.undisposed
  · intro b hb
    obtain ⟨fd, hfd⟩ := hw.socket
    have hbuf := hw.buffers _ _ hc
    simp only [Writing.write, hcall, AsyncSRT.recordWrite, AsyncSRT.accept, hfd,
      movedBuffers_write fd (show chunk.buffer.transfer = .moved by rw [hbuf]),
      Finset.mem_union, List.mem_toFinset, List.mem_singleton] at hb ⊢
    rcases hb with hb | rfl
    · exact Nat.lt_succ_of_lt (h.detached b hb)
    · rw [hbuf]
      exact Nat.lt_succ_self _
  · simp only [Writing.write, hcall, AsyncSRT.recordWrite, AsyncSRT.accept, List.map_append,
      h.posted]
    rw [List.take_add_one, hc, List.map_append]
    rfl
  · have hlen := congrArg List.length h.awaited
    simp only [List.length_map, List.length_range] at hlen
    simp only [Writing.write, h.calls, hlen, List.range_succ]
  · simp only [Writing.write, hcall, AsyncSRT.recordWrite, AsyncSRT.accept, AsyncSRT.prepare,
      List.map_append, List.range_succ, h.awaited, hnext]
    rfl
  · simp only [Writing.write, hcall]
    exact h.outcomes

theorem step_writeAll (h : Supplied w s) (hw : Chunked w) {chunks : List BufferView}
    (hc : chunks <+: w.chunks.drop s.chunkIndex) : Supplied w (s.writeAll w chunks) := by
  induction chunks generalizing s with
  | nil => exact h
  | cons chunk chunks ih =>
    obtain ⟨rest, hrest⟩ := hc
    obtain ⟨hget, hdrop⟩ := drop_eq_cons hrest.symm
    exact ih (h.step_write hw hget) ⟨rest, hdrop.symm⟩

theorem step_tick (h : Supplied w s) (hw : Chunked w) : Supplied w (s.tick w) := by
  have ht := h.tracked.step_tick
  have hs : Supplied w { s with tickStart := s.chunkIndex } :=
    h.frame (h.tracked.extend (.refl _) rfl) rfl
  have hall : Supplied w (Writing.writeAll w _ (s.tickChunks w)) :=
    hs.step_writeAll hw (List.take_prefix _ _)
  rw [tick_eq] at ht ⊢
  exact hall.frame ht rfl

theorem promise_cases (h : Supplied w s) (i : ℕ) :
    s.promiseOf i = .pending ∨ ∃ chunk, w.chunks[i]? = some chunk ∧
      s.promiseOf i = .fulfilled (.number chunk.data.length) := by
  cases hp : s.promiseOf i with
  | pending => exact Or.inl rfl
  | fulfilled n =>
    obtain ⟨chunk, hsent, hn⟩ := h.tracked.sent_of_fulfilled h.sending hp
    exact Or.inr ⟨chunk, hsent.1, by rw [hn]⟩
  | rejected e =>
    exfalso
    have hinv := h.sending.invariant
    by_cases hi : i < s.chunkIndex
    · have hj : s.whenWritten[i]? = some i := by
        rw [h.calls]
        exact List.getElem?_range hi
      obtain ⟨c, chunk, hc, _⟩ := h.tracked.calls i i hj
      have hawait : c.awaited = .promise i := by
        have hget := congrArg (fun l : List CallReturn => l[i]?) h.awaited
        simpa [hc, List.getElem?_range hi] using hget
      obtain ⟨q, hq, _, huse, _⟩ :=
        h.sending.written.posted c (List.mem_of_getElem? hc) i hawait
      simp only [Writing.promiseOf, hj, hc, WriteCall.promise, hawait] at hp
      cases hk : s.sys.promise i with
      | pending => simp [hk] at hp
      | rejected e' =>
        -- only a timeout rejects a posted call, and a write has none
        obtain ⟨ms, q', hq', huse', _⟩ := hinv.settled.late i (hinv.settled.refused i e' hk)
        rw [hq] at hq'
        rw [← Option.some.inj hq', huse] at huse'
        cases huse'
      | fulfilled v =>
        obtain ⟨_, m, hm, hv⟩ := hinv.settled.fulfilled i v hk
        obtain ⟨o, ho, rfl⟩ := hinv.correlated.executed_at hq hm
        obtain ⟨ret, hret, hne⟩ := h.outcomes _ (List.mem_of_getElem? ho)
        obtain rfl : ret = v := by simpa [show o = .ok ret from hret, replyTo] using hv
        simp [hk, hne] at hp
    · have hj : s.whenWritten[i]? = none := by
        rw [h.calls]
        simpa using hi
      simp [Writing.promiseOf, hj] at hp

theorem step_deliver (h : Supplied w s) (he : AsyncApi.Enabled s.sys .deliver) :
    Supplied w (s.next w (.sys .deliver)) := by
  obtain ⟨data, rest, hdata⟩ := List.exists_cons_of_ne_nil he.1
  have hsend := h.sending.step (e := .deliver) ⟨he, trivial, trivial⟩
  have htrack : Tracked w (s.next w (.sys .deliver)) :=
    h.tracked.extend (step_extends s.sys .deliver).1 rfl
  have hnext : AsyncApi.next s.sys .deliver = s.sys.deliver data := by
    simp [AsyncApi.next, hdata]
  have hf := deliver_frame s.sys data
  simp only [Prod.mk.injEq, ← hnext] at hf
  obtain ⟨e₁, e₂, e₃, e₄, e₅, e₆, _⟩ := hf
  exact ⟨hsend, htrack, e₂.trans h.held, e₃.trans h.undisposed, fun b hb => h.detached b (e₄ ▸ hb),
    h.bound, (congrArg _ e₁).trans h.posted, h.calls, (congrArg _ e₆).trans h.awaited,
    fun x hx => h.outcomes x (e₅ ▸ hx)⟩

theorem head_defined (h : Supplied w s) {post : AsyncSRTWorkerPost}
    {rest : List AsyncSRTWorkerPost} (hq : s.sys.toWorker = post :: rest) :
    anyUndefined post.args = false := by
  have ht := h.sending.invariant.correlated.transit
  rw [hq] at ht
  obtain ⟨q, hq', hpost⟩ := List.mem_map.mp (List.mem_of_getElem? ht.served_next)
  exact hpost ▸ h.sending.invariant.correlated.defined q hq'

theorem step_exec (h : Supplied w s) {post : AsyncSRTWorkerPost}
    {rest : List AsyncSRTWorkerPost} (hq : s.sys.toWorker = post :: rest) {ret : ReturnValue}
    (hret : ret ≠ .number SRT_ERROR) : Supplied w (s.next w (.sys (.exec (.ok ret)))) := by
  have hphase : s.sys.disposing ≠ .finished := by
    intro hd
    have hheld := h.sending.invariant.disposal.held.mp h.held
    simp [hd] at hheld
  have hne : s.sys.toWorker ≠ [] := by simp [hq]
  have hsend := h.sending.step (e := .exec (.ok ret)) ⟨⟨hne, hphase⟩, trivial, trivial⟩
  have htrack : Tracked w (s.next w (.sys (.exec (.ok ret)))) :=
    h.tracked.extend (step_extends s.sys (.exec (.ok ret))).1 rfl
  have hnext : AsyncApi.next s.sys (.exec (.ok ret)) = s.sys.exec post (.ok ret) := by
    simp [AsyncApi.next, hq]
  rw [hnext] at hsend
  refine ⟨?_, htrack, ?_, ?_, ?_, h.bound, ?_, h.calls, ?_, ?_⟩ <;>
    simp only [Writing.next, hnext, AsyncSRT.exec]
  · exact hsend
  · exact h.held
  · exact h.undisposed
  · exact h.detached
  · exact h.posted
  · exact h.awaited
  · intro x hx
    rw [h.head_defined hq] at hx
    rcases List.mem_append.mp hx with hx | hx
    · exact h.outcomes x hx
    · exact ⟨ret, by rw [List.mem_singleton.mp hx], hret⟩

theorem step_thenWritten (h : Supplied w s) {i : ℕ} (hi : i ∉ s.handled) (threw : Bool) :
    Supplied w (s.thenWritten w i threw) := by
  apply h.frame (h.tracked.step_thenWritten h.sending hi threw)
  simp only [Writing.thenWritten]
  repeat' split
  all_goals rfl

theorem step (h : Supplied w s) (hw : Chunked w) {e : WriteEvent} (ho : ownWrite e = true)
    (he : s.Enabled w e) : Supplied w (s.next w e) := by
  cases e with
  | sys e =>
    cases e with
    | deliver => exact h.step_deliver he
    | _ => cases ho
  | tick => exact h.step_tick hw
  | thenWritten i threw => exact h.step_thenWritten he.2 threw
  | finish => exact h.frame (h.tracked.extend (.refl _) rfl) rfl
  | fail i => exact h.frame (h.tracked.extend (.refl _) rfl) rfl

end Supplied

theorem writeAll_frame (w : WriteArgs) (s : Writing) (chunks : List BufferView) :
    ((s.writeAll w chunks).handled, (s.writeAll w chunks).onWrites,
      (s.writeAll w chunks).tickStart, (s.writeAll w chunks).returned) =
    (s.handled, s.onWrites, s.tickStart, s.returned) := by
  induction chunks generalizing s with
  | nil => rfl
  | cons chunk chunks ih => exact ih (s.write w chunk)

namespace Reacted

variable {w : WriteArgs} {s : Writing}

/-- After a tick has been awaited every chunk issued so far has been reacted to. -/
theorem all_handled (h : Reacted w s) (hm : w.mode = .yieldingLoop) (ht : s.TickWritten) :
    ∀ i < s.chunkIndex, i ∈ s.handled := by
  intro i hi
  by_cases hs : i < s.tickStart
  · exact h.ticks hm i hs
  · exact (ht i hi (by omega)).1

theorem step_tick (h : Reacted w s) (he : s.Enabled w .tick) : Reacted w (s.tick w) := by
  have hf := writeAll_frame w { s with tickStart := s.chunkIndex } (s.tickChunks w)
  have hidx := writeAll_chunkIndex w { s with tickStart := s.chunkIndex } (s.tickChunks w)
  simp only [Prod.mk.injEq] at hf
  obtain ⟨e₁, e₂, e₃, e₄⟩ := hf
  rw [tick_eq]
  refine ⟨(congrArg _ e₂).trans (h.reported.trans e₁.symm), e₁.symm ▸ h.distinct, ?_, ?_, ?_, ?_⟩
  · intro i hi
    have := h.issued i (e₁ ▸ hi)
    exact lt_of_lt_of_le this (hidx.symm ▸ Nat.le_add_right _ _)
  · intro hm i hi
    simp only [Writing.Enabled, hm] at he
    exact e₁.symm ▸ h.all_handled hm he.2.2 i (e₃ ▸ hi)
  · intro hr
    have hr' : isFulfilled s.returned = true := e₄ ▸ hr
    have hm := (h.returned hr').1
    simp only [Writing.Enabled, hm] at he
    rw [he.1] at hr'
    cases hr'
  · intro hbf
    refine le_of_le_of_eq ?_ hidx.symm
    cases hi : s.interval with
    | false => exact (h.cleared hi).trans (Nat.le_add_right _ _)
    | true =>
      obtain ⟨-, hout⟩ := (keepsInterval_eq_false w).mp (by simpa [hi] using hbf)
      simp only [Writing.tickChunks, List.length_take, List.length_drop]
      omega

theorem step_thenWritten (h : Reacted w s) (hs : Supplied w s) (hw : Chunked w) {i : ℕ}
    {threw : Bool} (he : s.Enabled w (.thenWritten i threw)) :
    Reacted w (s.thenWritten w i threw) := by
  rcases hs.promise_cases i with hp | ⟨chunk, hc, hp⟩
  · exact absurd hp he.1
  have hi : i < s.chunkIndex := by
    by_contra hge
    have hj : s.whenWritten[i]? = none := by
      rw [hs.calls]
      simpa using hge
    simp [Writing.promiseOf, hj] at hp
  have hne : ReturnValue.number (chunk.data.length : ℤ) ≠ .number SRT_ERROR := by
    intro heq
    have := ReturnValue.number.inj heq
    simp only [SRT_ERROR] at this
    omega
  have hhandled : (s.thenWritten w i threw).handled = s.handled ++ [i] ∧
      (s.thenWritten w i threw).onWrites = s.onWrites ++
        [(i, .number chunk.data.length, s.chunkWrittenIdx)] ∧
      (s.thenWritten w i threw).chunkIndex = s.chunkIndex ∧
      (s.thenWritten w i threw).tickStart = s.tickStart ∧
      (s.thenWritten w i threw).returned = s.returned ∧
      (s.thenWritten w i threw).interval = s.interval := by
    cases threw <;> simp [Writing.thenWritten, hp, hne, hw.onWrite]
  obtain ⟨e₁, e₂, e₃, e₄, e₅, e₆⟩ := hhandled
  constructor
  · rw [e₁, e₂, List.map_append, h.reported]
    rfl
  · rw [e₁]
    exact List.nodup_append.mpr ⟨h.distinct, List.nodup_singleton _,
      fun a ha b hb hab => he.2 (List.mem_singleton.mp hb ▸ hab ▸ ha)⟩
  · intro j hj
    rw [e₁] at hj
    rw [e₃]
    rcases List.mem_append.mp hj with hj | hj
    · exact h.issued j hj
    · exact List.mem_singleton.mp hj ▸ hi
  · intro hm j hj
    rw [e₁]
    exact List.mem_append_left _ (h.ticks hm j (e₄ ▸ hj))
  · intro hr
    obtain ⟨h₁, h₂, h₃⟩ := h.returned (e₅ ▸ hr)
    refine ⟨h₁, e₃.symm ▸ h₂, ?_⟩
    intro j hj
    rw [e₁]
    exact List.mem_append_left _ (h₃ j (e₃ ▸ hj))
  · rw [e₃, e₆]
    exact h.cleared

theorem step (h : Reacted w s) (hs : Supplied w s) (hw : Chunked w) {e : WriteEvent}
    (he : s.Enabled w e) : Reacted w (s.next w e) := by
  cases e with
  | sys e => exact ⟨h.reported, h.distinct, h.issued, h.ticks, h.returned, h.cleared⟩
  | tick => exact h.step_tick he
  | thenWritten i threw => exact h.step_thenWritten hs hw he
  | finish =>
    exact { h with returned := fun _ => ⟨he.1, he.2.2.1, h.all_handled he.1 he.2.2.2⟩ }
  | fail i =>
    refine { h with returned := fun hr => ?_ }
    have := he.2.2.2.2
    simp only [Writing.next] at hr
    rw [hr] at this
    cases this

/-- When the loop is done all chunks have been issued and reacted to. -/
theorem complete (h : Reacted w s) (hs : Supplied w s) (hc : Complete w s) :
    s.handled.Perm (List.range w.chunks.length) := by
  have hall : w.chunks.length ≤ s.chunkIndex ∧ ∀ i < s.chunkIndex, i ∈ s.handled := by
    unfold Complete at hc
    split at hc
    · exact (h.returned hc).2
    · exact ⟨h.cleared hc.1, hc.2⟩
  have hidx : s.chunkIndex = w.chunks.length := le_antisymm hs.bound hall.1
  rw [List.perm_ext_iff_of_nodup h.distinct List.nodup_range]
  intro i
  rw [List.mem_range, ← hidx]
  exact ⟨h.issued i, hall.2 i⟩

end Reacted

/-- The size an `onWrite` call is given. -/
def reportedSize : ReturnValue → ℤ
  | .number n => n
  | _ => 0

theorem sum_reported {w : WriteArgs} {s : Writing} (h : Reacted w s) (hs : Supplied w s)
    (hc : Complete w s) :
    (s.onWrites.map fun x => reportedSize x.2.1).sum =
      ((w.chunks.map BufferView.data).flatten.length : ℤ) := by
  let size (i : ℕ) : ℤ := ((w.chunks[i]?.map fun c => c.data.length).getD 0 : ℕ)
  have hsizes : s.onWrites.map (fun x => reportedSize x.2.1) = s.handled.map size := by
    rw [← h.reported, List.map_map]
    apply List.map_congr_left
    intro x hx
    obtain ⟨chunk, hsent, hn⟩ := hs.tracked.reported x hx
    simp [size, hn, hsent.1, reportedSize]
  have hrange : (List.range w.chunks.length).map size =
      w.chunks.map fun c => (c.data.length : ℤ) := by
    apply List.ext_getElem?
    intro i
    by_cases hi : i < w.chunks.length
    · simp [size, hi]
    · simp [size, hi]
  rw [hsizes, ((h.complete hs hc).map size).sum_eq, hrange, List.length_flatten, List.map_map]
  generalize w.chunks = chunks
  induction chunks with
  | nil => rfl
  | cons c chunks ih => simp [ih]

end Transfer
