import NodeSrt.Progress
import NodeSrt.TransferDelivery

/-! # A transfer comes to its end

Each step of a transfer raises one counter that is bounded by the number of chunks, and a
transfer that is not done can always go on. So every order of steps leads to the end, where
the reader has the whole buffer. -/
namespace Transfer

open AsyncValues
open TransitionSystem
open AsyncApi
open OrderedPort
open Pieces
open Tools
open WriteModes
open ReadModes

/-! ## Instances without callbacks -/

structure Plain (sys : AsyncSRT Unit) : Prop where
  running : sys.running = none
  callbacks : ∀ q ∈ sys.posted, q.1.callback = false

theorem initial_plain : Plain (AsyncApi.initial : AsyncSRT Unit) :=
  ⟨rfl, by simp [AsyncApi.initial]⟩

namespace Plain

variable {sys : AsyncSRT Unit}

theorem step_call (h : Plain sys) {c : ApiCall} (hc : Accepts sys c) :
    Plain (sys.apiCall c false ()).1 := by
  rw [apiCall_of_accepts hc]
  refine ⟨h.running, fun q hq => ?_⟩
  rcases List.mem_append.mp hq with hq | hq
  · exact h.callbacks q hq
  · rw [List.mem_singleton.mp hq]

theorem step_exec (h : Plain sys) (o : Outcome) : Plain (AsyncApi.next sys (.exec o)) := by
  simp only [AsyncApi.next]
  split
  · exact ⟨h.running, h.callbacks⟩
  · exact h

theorem step_deliver (h : Plain sys) (hinv : Invariant sys) (hw : sys.worker = true)
    (hm : sys.toMain ≠ []) : Plain (AsyncApi.next sys .deliver) ∧
      (AsyncApi.next sys .deliver).answered = sys.answered + 1 := by
  obtain ⟨data, rest, hdata⟩ := List.exists_cons_of_ne_nil hm
  obtain ⟨q, ks, hq, hp, -⟩ := hinv.correlated.head hw hdata
  have hcb := h.callbacks q (List.mem_of_getElem? hp)
  have hnext : AsyncApi.next sys .deliver = sys.deliver data := by simp [AsyncApi.next, hdata]
  rw [hnext, deliver_of_queue hw hq, onResult_eq]
  exact ⟨⟨by simp [hcb, h.running], h.callbacks⟩, rfl⟩

end Plain

/-! ## The reader -/

/-- A read is awaited only while there are bytes to read. -/
def Asking (minBytesRead : ℕ) (s : Reading) : Prop :=
  s.awaited ≠ none → s.bytesRead < minBytesRead

/-- What is left to do for the reader of `total` messages. -/
def rxLeft (total : ℕ) (s : Reading) : ℕ :=
  (!s.started).toNat + (total - s.sys.executed.length) + (total - s.sys.answered) +
    (total - s.chunks.length)

section Reader

variable {minBytesRead size : ℕ} {sent channel : List Bytes} {s : Reading}

theorem loopHead_left (minBytesRead : ℕ) (fd : ℤ) (h : Served size sent channel s.sys)
    (hp : Plain s.sys) (hn : s.awaited = none) :
    let t := s.loopHead (readArgs fd minBytesRead size)
    Plain t.sys ∧ Asking minBytesRead t ∧
      (t.started, t.chunks, t.sys.executed, t.sys.answered) =
        (s.started, s.chunks, s.sys.executed, s.sys.answered) := by
  have ha := h.accepts fd
  by_cases hb : s.bytesRead < minBytesRead
  · have hhead : s.loopHead (readArgs fd minBytesRead size) = { s with
        sys := (s.sys.apiCall (.read (.number fd) (.number size)) false ()).1
        awaited := some (s.sys.apiCall (.read (.number fd) (.number size)) false ()).2 } := by
      simp only [Reading.loopHead, readArgs, hb, if_true]
    rw [hhead]
    refine ⟨hp.step_call ha, fun _ => hb, ?_⟩
    rw [apiCall_of_accepts ha]
    rfl
  · have hhead : s.loopHead (readArgs fd minBytesRead size) =
        { s with returned := some (.fulfilled s.chunks) } := by
      simp only [Reading.loopHead, readArgs, hb, if_false]
    rw [hhead]
    exact ⟨hp, fun hs => absurd hn hs, rfl⟩

theorem resume_eq (fd : ℤ) (h : Served size sent channel s.sys)
    (hc : Collected minBytesRead sent s) (threw : Bool) (he : s.readReturn ≠ .pending) :
    ∃ msg : Bytes, s.next (readArgs fd minBytesRead size) (.resume threw) =
      Reading.loopHead (readArgs fd minBytesRead size) { s with
        awaited := none
        bytesRead := s.bytesRead + msg.length
        chunks := s.chunks ++ [msg] } := by
  cases hc.phase with
  | idle _ awaited => simp [Reading.readReturn, awaited] at he
  | done _ awaited => simp [Reading.readReturn, awaited] at he
  | awaiting started awaited calls returned =>
    have hret : s.readReturn = s.sys.promise s.chunks.length := by
      simp [Reading.readReturn, awaited]
    rcases h.promise_cases s.chunks.length with hp | ⟨msg, hmsg, hp⟩
    · exact absurd (hret.trans hp) he
    · exact ⟨msg, by simp [Reading.next, Reading.resume, hret, hp, Reading.handle, readArgs]⟩

end Reader

/-! ## The writer -/

def unreturned : Settlement → ℕ
  | .pending => 1
  | _ => 0

/-- What is left to do for the writer of the chunks. -/
def txLeft (w : WriteArgs) (s : Writing) : ℕ :=
  (w.chunks.length - s.chunkIndex) + (w.chunks.length - s.sys.executed.length) +
    (w.chunks.length - s.sys.answered) + (w.chunks.length - s.handled.length) +
    s.interval.toNat + unreturned s.returned

section Writer

variable {w : WriteArgs} {s : Writing}

/-- The write of a chunk has settled just if its reply has come in. -/
theorem written_iff (h : Supplied w s) {i : ℕ} (hi : i < s.chunkIndex) :
    s.promiseOf i ≠ .pending ↔ i < s.sys.answered := by
  have hj : s.whenWritten[i]? = some i := by
    rw [h.calls]
    exact List.getElem?_range hi
  obtain ⟨c, chunk, hc, -⟩ := h.tracked.calls i i hj
  have hawait : c.awaited = .promise i := by
    have hget := congrArg (fun l : List CallReturn => l[i]?) h.awaited
    simpa [hc, List.getElem?_range hi] using hget
  have hpromise : s.promiseOf i = c.promise s.sys := by simp [Writing.promiseOf, hj, hc]
  constructor
  · intro hne
    by_contra hge
    have hpend : s.sys.promise i = .pending := by
      cases hp : s.sys.promise i with
      | pending => rfl
      | fulfilled v => exact absurd (h.sending.invariant.settled.fulfilled i v hp).1 hge
      | rejected e =>
        rcases h.promise_cases i with hq | ⟨chunk, -, hq⟩
        · exact absurd hq hne
        · simp [hpromise, WriteCall.promise, hawait, hp] at hq
    exact hne (by simp [hpromise, WriteCall.promise, hawait, hpend])
  · intro hlt hpend
    have hset := h.sending.invariant.settled.answered h.held i hlt
    rw [hpromise] at hpend
    simp only [WriteCall.promise, hawait] at hpend
    split at hpend
    · exact hset ‹_›
    · cases hpend
    · split at hpend <;> cases hpend

theorem plain_writeAll (h : Supplied w s) (hw : Chunked w) (hp : Plain s.sys)
    {chunks : List BufferView} (hc : chunks <+: w.chunks.drop s.chunkIndex) :
    Plain (s.writeAll w chunks).sys ∧
      (s.writeAll w chunks).sys.answered = s.sys.answered := by
  induction chunks generalizing s with
  | nil => exact ⟨hp, rfl⟩
  | cons chunk chunks ih =>
    obtain ⟨rest, hrest⟩ := hc
    obtain ⟨hget, hdrop⟩ := drop_eq_cons hrest.symm
    have ha := h.accepts hw hget
    have hplain : Plain (s.write w chunk).sys := hp.step_call ha
    have hans : (s.write w chunk).sys.answered = s.sys.answered := by
      simp only [Writing.write, WriteArgs.writeCall, AsyncApi.next, apiCall_of_accepts ha]
      rfl
    obtain ⟨hplain', hans'⟩ := ih (h.step_write hw hget) hplain ⟨rest, hdrop.symm⟩
    exact ⟨hplain', hans'.trans hans⟩

theorem tick_spec (h : Supplied w s) (hw : Chunked w) (hp : Plain s.sys) :
    Plain (s.tick w).sys ∧
      ((s.tick w).sys.executed, (s.tick w).sys.answered, (s.tick w).handled,
        (s.tick w).returned) = (s.sys.executed, s.sys.answered, s.handled, s.returned) ∧
      (s.tick w).chunkIndex = s.chunkIndex + min w.writesPerTick (w.chunks.length - s.chunkIndex) ∧
      (s.tick w).interval = (s.interval && w.keepsInterval s.chunkIndex) := by
  have hs : Supplied w { s with tickStart := s.chunkIndex } :=
    h.frame (h.tracked.extend (.refl _) rfl) rfl
  obtain ⟨hplain, hans⟩ :
      Plain (Writing.writeAll w { s with tickStart := s.chunkIndex } (s.tickChunks w)).sys ∧
        (Writing.writeAll w { s with tickStart := s.chunkIndex } (s.tickChunks w)).sys.answered =
          s.sys.answered := plain_writeAll hs hw hp (List.take_prefix _ _)
  have hf := writeAll_frame w { s with tickStart := s.chunkIndex } (s.tickChunks w)
  have hidx := writeAll_chunkIndex w { s with tickStart := s.chunkIndex } (s.tickChunks w)
  have hexec := writeAll_executed w { s with tickStart := s.chunkIndex } (s.tickChunks w)
  simp only [Prod.mk.injEq] at hf
  rw [tick_eq]
  refine ⟨hplain, ?_, ?_, rfl⟩
  · exact Prod.ext hexec (Prod.ext hans (Prod.ext hf.1 hf.2.2.2))
  · refine hidx.trans ?_
    simp [Writing.tickChunks]

theorem writer_bounds (h : Supplied w s) (hr : Reacted w s) :
    s.chunkIndex ≤ w.chunks.length ∧ s.sys.executed.length ≤ w.chunks.length ∧
      s.sys.answered ≤ w.chunks.length ∧ s.handled.length ≤ w.chunks.length := by
  have hcorr := h.sending.invariant.correlated
  have hlen := congrArg List.length h.posted
  have hserved := hcorr.transit.served_le
  have hreceived := hcorr.transit.received_le
  simp only [List.length_map, List.length_take] at hlen hserved
  have hexec := hcorr.executed_length
  have hhandled : s.handled.length ≤ (List.range s.chunkIndex).length :=
    (hr.distinct.subperm fun i hi => List.mem_range.mpr (hr.issued i hi)).length_le
  rw [List.length_range] at hhandled
  have hbound := h.bound
  exact ⟨hbound, by omega, by omega, by omega⟩

/-- What the writer knows besides: each reaction is to a reply, and no write fails. -/
structure Moving (s : Writing) : Prop where
  plain : Plain s.sys
  reacted : ∀ i ∈ s.handled, i < s.sys.answered
  unfailed : s.returned = .pending ∨ isFulfilled s.returned = true

theorem initial_moving : Moving Writing.initial :=
  ⟨initial_plain, by simp [Writing.initial], Or.inl rfl⟩

theorem thenWritten_spec (w : WriteArgs) {i : ℕ} (threw : Bool) (h : s.promiseOf i ≠ .pending) :
    ((s.thenWritten w i threw).sys, (s.thenWritten w i threw).chunkIndex,
      (s.thenWritten w i threw).interval, (s.thenWritten w i threw).returned,
      (s.thenWritten w i threw).handled) =
    (s.sys, s.chunkIndex, s.interval, s.returned, s.handled ++ [i]) := by
  unfold Writing.thenWritten
  split
  · exact absurd ‹_› h
  · rfl
  · dsimp only
    split
    · rfl
    · split <;> rfl

theorem fail_disabled (h : Supplied w s) (hr : Reacted w s) (hm : Moving s) (i : ℕ) :
    ¬ s.Enabled w (.fail i) := by
  rintro ⟨-, -, -, hi, hf⟩
  have hset := (written_iff h (hr.issued i hi)).mpr (hm.reacted i hi)
  rcases h.promise_cases i with hp | ⟨chunk, -, hp⟩
  · exact hset hp
  · simp [hp, isFulfilled] at hf

theorem tick_left (h : Supplied w s) (hw : Chunked w) (hm : Moving s)
    (hn : 1 ≤ w.writesPerTick) (he : s.Enabled w .tick) :
    Moving (s.tick w) ∧ txLeft w (s.tick w) < txLeft w s := by
  obtain ⟨hplain, hf, hidx, hint⟩ := tick_spec h hw hm.plain
  simp only [Prod.mk.injEq] at hf
  obtain ⟨hexec, hans, hhandled, hret⟩ := hf
  have hb := h.bound
  refine ⟨⟨hplain, by rw [hhandled, hans]; exact hm.reacted, by rw [hret]; exact hm.unfailed⟩, ?_⟩
  simp only [txLeft, hexec, hans, hhandled, hret, hidx, hint]
  have hle : (s.interval && w.keepsInterval s.chunkIndex).toNat ≤ s.interval.toNat :=
    Bool.toNat_le_toNat (by cases s.interval <;> simp)
  by_cases hlt : s.chunkIndex < w.chunks.length
  · omega
  · -- no chunk is left, so it is the interval that is cleared
    cases hmode : w.mode with
    | yieldingLoop =>
      simp only [Writing.Enabled, hmode] at he
      exact absurd he.2.1 hlt
    | explicitScheduling =>
      simp only [Writing.Enabled, hmode] at he
      have hout := (keepsInterval_eq_false w).mpr
        ⟨hmode, show ¬ w.writesPerTick ≤ w.chunks.length - s.chunkIndex by omega⟩
      simp only [he, hout, Bool.and_false, Bool.toNat_false, Bool.toNat_true]
      omega

theorem writer_step (h : Supplied w s) (hw : Chunked w) (hr : Reacted w s) (hm : Moving s)
    (hn : 1 ≤ w.writesPerTick) {e : WriteEvent} (ho : ownWrite e = true) (he : s.Enabled w e) :
    Moving (s.next w e) ∧ txLeft w (s.next w e) < txLeft w s := by
  have hb := writer_bounds (h.step hw ho he) (hr.step h hw he)
  cases e with
  | sys e =>
    cases e with
    | deliver =>
      obtain ⟨hplain, hans⟩ := hm.plain.step_deliver h.sending.invariant h.held he.1
      have hexec : (AsyncApi.next s.sys .deliver).executed = s.sys.executed :=
        executed_of_not_exec rfl
      refine ⟨⟨hplain, fun i hi => ?_, hm.unfailed⟩, ?_⟩
      · exact (hm.reacted i hi).trans (hans ▸ Nat.lt_succ_self _)
      · simp only [Writing.next, txLeft, hans, hexec] at hb ⊢
        omega
    | _ => cases ho
  | tick => exact tick_left h hw hm hn he
  | thenWritten i threw =>
    have hf := thenWritten_spec w threw he.1
    simp only [Prod.mk.injEq] at hf
    obtain ⟨hsys, hidx, hint, hret, hhandled⟩ := hf
    simp only [Writing.next] at hb ⊢
    refine ⟨⟨hsys ▸ hm.plain, fun j hj => ?_, hret ▸ hm.unfailed⟩, ?_⟩
    · rw [hsys]
      rw [hhandled] at hj
      rcases List.mem_append.mp hj with hj | hj
      · exact hm.reacted j hj
      · rw [List.mem_singleton.mp hj]
        have hi : i < s.chunkIndex := by
          by_contra hge
          have hnone : s.whenWritten[i]? = none := by
            rw [h.calls]
            simpa using hge
          exact he.1 (by simp [Writing.promiseOf, hnone])
        exact (written_iff h hi).mp he.1
    · simp only [txLeft, hsys, hidx, hint, hret, hhandled, List.length_append,
        List.length_singleton] at hb ⊢
      omega
  | finish =>
    refine ⟨⟨hm.plain, hm.reacted, Or.inr rfl⟩, ?_⟩
    simp [Writing.next, txLeft, unreturned, he.2.1]
  | fail i => exact absurd he (fail_disabled h hr hm i)

end Writer

/-! ## Both sides -/

def contents (w : WriteArgs) : List Bytes := (w.chunks.map BufferView.data).filter (!·.isEmpty)

structure Working (w : WriteArgs) (minBytesRead size : ℕ) (t : State) : Prop where
  delivering : Delivering w minBytesRead size t
  writer : Moving t.tx
  reader : Plain t.rx.sys
  asking : Asking minBytesRead t.rx

def left (w : WriteArgs) (t : State) : ℕ := txLeft w t.tx + rxLeft (contents w).length t.rx

theorem initial_working (w : WriteArgs) (minBytesRead size : ℕ) :
    Working w minBytesRead size initial where
  delivering := initial_delivering w minBytesRead size
  writer := initial_moving
  reader := initial_plain
  asking h := absurd rfl h

theorem Delivering.reader_bounds {w : WriteArgs} {minBytesRead size : ℕ} {t : State}
    (h : Delivering w minBytesRead size t) :
    t.rx.sys.executed.length ≤ (contents w).length ∧
      t.rx.sys.answered ≤ (contents w).length ∧ t.rx.chunks.length ≤ (contents w).length := by
  have hm := (messages_of_chunks h.supplied).length_le
  have hcorr := h.served.invariant.correlated
  have hreceived := hcorr.transit.received_le
  have hexec := hcorr.executed_length
  have hle := h.served.executed_le
  have hchunks := h.collected.chunks.length_le
  refine ⟨hle.trans hm, ?_, hchunks.trans hm⟩
  exact (hreceived.trans (hexec.symm.le.trans hle)).trans hm

namespace Working

variable {w : WriteArgs} {minBytesRead size : ℕ} {t : State} {fd : ℤ}

theorem step (h : Working w minBytesRead size t) (hw : Chunked w)
    (hfit : ∀ c ∈ w.chunks, c.data.length ≤ size) (hn : 1 ≤ w.writesPerTick)
    {e : TransferEvent} (he : Enabled w t e) :
    Working w minBytesRead size (next w (readArgs fd minBytesRead size) t e) ∧
      left w (next w (readArgs fd minBytesRead size) t e) < left w t := by
  have hd : Delivering w minBytesRead size (next w (readArgs fd minBytesRead size) t e) :=
    h.delivering.step hw hfit he
  have hb := hd.reader_bounds
  have hser := h.delivering.served
  cases e with
  | tx e =>
    obtain ⟨hm, hlt⟩ := writer_step h.delivering.supplied hw h.delivering.reacted h.writer hn
      he.1 he.2
    exact ⟨⟨hd, hm, h.reader, h.asking⟩, Nat.add_lt_add_right hlt _⟩
  | txExec ret =>
    obtain ⟨post, rest, hq⟩ := List.exists_cons_of_ne_nil he.1
    have hdef := h.delivering.supplied.head_defined hq
    have hbtx := writer_bounds hd.supplied hd.reacted
    simp only [next, hq] at hd hbtx ⊢
    refine ⟨⟨hd, ⟨h.writer.plain.step_exec _, ?_, h.writer.unfailed⟩, h.reader, h.asking⟩, ?_⟩
    · simpa [Writing.next, AsyncApi.next, hq, AsyncSRT.exec] using h.writer.reacted
    · simp only [left, txLeft, Writing.next, AsyncApi.next, hq, AsyncSRT.exec, hdef,
        Bool.false_eq_true, if_false, List.length_append, List.length_singleton] at hbtx ⊢
      omega
  | rx e =>
    cases e with
    | sys e =>
      cases e with
      | deliver =>
        obtain ⟨hplain, hans⟩ := h.reader.step_deliver hser.invariant hser.held he.2.1
        have hexec : (AsyncApi.next t.rx.sys .deliver).executed = t.rx.sys.executed :=
          executed_of_not_exec rfl
        refine ⟨⟨hd, h.writer, hplain, h.asking⟩, ?_⟩
        simp only [next, Reading.next, left, rxLeft, hans, hexec] at hb ⊢
        omega
      | _ => cases he.1
    | begin =>
      have hstart : t.rx.started = false := he.2
      have hnone : t.rx.awaited = none := by
        cases h.delivering.collected.phase with
        | idle _ awaited => exact awaited
        | awaiting started => rw [hstart] at started; cases started
        | done started => rw [hstart] at started; cases started
      obtain ⟨hplain, hask, hf⟩ := loopHead_left (s := { t.rx with started := true })
        minBytesRead fd hser h.reader hnone
      simp only [Prod.mk.injEq] at hf
      refine ⟨⟨hd, h.writer, hplain, hask⟩, ?_⟩
      simp only [next, Reading.next, left, rxLeft, hf, hstart]
      simp
    | resume threw =>
      obtain ⟨msg, hbody⟩ := resume_eq fd hser h.delivering.collected threw he.2
      obtain ⟨hplain, hask, hf⟩ := loopHead_left (s := { t.rx with
          awaited := none
          bytesRead := t.rx.bytesRead + msg.length
          chunks := t.rx.chunks ++ [msg] }) minBytesRead fd hser h.reader rfl
      simp only [Prod.mk.injEq] at hf
      simp only [next, hbody] at hd hb ⊢
      refine ⟨⟨hd, h.writer, hplain, hask⟩, ?_⟩
      simp only [left, rxLeft, hf, List.length_append, List.length_singleton] at hb ⊢
      omega
  | rxExec o =>
    cases hq : t.rx.sys.toWorker with
    | nil => simp [Enabled, ServesHead, hq] at he
    | cons post posts =>
      have hdef : anyUndefined post.args = false := by
        have ht := hser.invariant.correlated.transit
        rw [hq] at ht
        obtain ⟨q, hq', hpost⟩ := List.mem_map.mp (List.mem_of_getElem? ht.served_next)
        exact hpost ▸ hser.invariant.correlated.defined q hq'
      refine ⟨⟨hd, h.writer, h.reader.step_exec o, h.asking⟩, ?_⟩
      simp only [next, Reading.next, left, rxLeft, AsyncApi.next, hq, AsyncSRT.exec, hdef,
        Bool.false_eq_true, if_false, List.length_append, List.length_singleton] at hb ⊢
      omega

theorem writer_done (h : Working w minBytesRead size t)
    (hex : ∀ e, ¬ Enabled w t e) : (∀ i < t.tx.chunkIndex, i ∈ t.tx.handled) ∧
      t.tx.sys.executed.length = t.tx.chunkIndex ∧ Complete w t.tx := by
  have hsup := h.delivering.supplied
  have hcorr := hsup.sending.invariant.correlated
  have hworker : t.tx.sys.toWorker = [] := by
    by_contra hne
    exact hex (.txExec (.number 0)) ⟨hne, by simp [SRT_ERROR]⟩
  have hmain : t.tx.sys.toMain = [] := by
    by_contra hne
    exact hex (.tx (.sys .deliver)) ⟨rfl, hne, h.writer.plain.running⟩
  have hlen := congrArg List.length hsup.posted
  have hbound := hsup.bound
  have hout := hcorr.transit.outstanding
  have hserved := hcorr.transit.served_le
  have hreceived := hcorr.transit.received_le
  have hexec := hcorr.executed_length
  simp only [hworker, hmain, List.length_nil, List.length_map, List.length_take]
    at hlen hout hserved
  have hhandled : ∀ i < t.tx.chunkIndex, i ∈ t.tx.handled := by
    intro i hi
    by_contra hno
    exact hex (.tx (.thenWritten i false))
      ⟨rfl, (written_iff hsup hi).mpr (by omega), hno⟩
  refine ⟨hhandled, by omega, ?_⟩
  have hticked : t.tx.TickWritten := by
    intro i hi _
    refine ⟨hhandled i hi, ?_⟩
    have hset := (written_iff hsup hi).mpr (by omega)
    rcases hsup.promise_cases i with hp | ⟨chunk, -, hp⟩
    · exact absurd hp hset
    · rw [hp]
      rfl
  unfold Complete
  split
  · rename_i hmode
    refine h.writer.unfailed.resolve_left fun hpend => ?_
    by_cases hlt : t.tx.chunkIndex < w.chunks.length
    · refine hex (.tx .tick) ⟨rfl, ?_⟩
      simp only [Writing.Enabled, hmode]
      exact ⟨hpend, hlt, hticked⟩
    · exact hex (.tx .finish) ⟨rfl, hmode, hpend, by omega, hticked⟩
  · rename_i hmode
    refine ⟨?_, hhandled⟩
    by_contra hint
    refine hex (.tx .tick) ⟨rfl, ?_⟩
    simp only [Writing.Enabled, hmode]
    simpa using hint

theorem messages_done (h : Working w minBytesRead size t) (hex : ∀ e, ¬ Enabled w t e) :
    messages t.tx = contents w := by
  obtain ⟨-, hexec, hcomplete⟩ := h.writer_done hex
  have hsup := h.delivering.supplied
  have hcorr := hsup.sending.invariant.correlated
  have hall : t.tx.chunkIndex = w.chunks.length := by
    have hperm := (h.delivering.reacted.complete hsup hcomplete).length_eq
    have hbounds := writer_bounds hsup h.delivering.reacted
    have hissued : t.tx.handled ⊆ List.range t.tx.chunkIndex :=
      fun i hi => List.mem_range.mpr (h.delivering.reacted.issued i hi)
    have hhandled := (h.delivering.reacted.distinct.subperm hissued).length_le
    simp only [List.length_range] at hperm hhandled
    omega
  have hcalls := hcorr.calls
  rw [hsup.posted, hall, List.take_length, ← hcorr.executed_length, hexec, hall,
    List.take_of_length_le (by simp)] at hcalls
  have hdata : t.tx.sys.executed.map (fun x => payload x.1) = w.chunks.map BufferView.data := by
    have hmap := congrArg (List.map payload) hcalls
    simpa [List.map_map, Function.comp_def, writePost, payload] using hmap
  rw [messages, hdata, contents]

/-- A reader that waits then has been answered all its reads, and there is a message for the
next one unless it has them all. -/
theorem reader_done (h : Working w minBytesRead size t) (hex : ∀ e, ¬ Enabled w t e)
    (henough : minBytesRead ≤ (contents w).flatten.length) :
    t.rx.returned = some (.fulfilled t.rx.chunks) := by
  have hser := h.delivering.served
  have hcol := h.delivering.collected
  have hcorr := hser.invariant.correlated
  have hmain : t.rx.sys.toMain = [] := by
    by_contra hne
    exact hex (.rx (.sys .deliver)) ⟨rfl, hne, h.reader.running⟩
  cases hcol.phase with
  | idle started => exact absurd ⟨rfl, started⟩ (hex (.rx .begin))
  | done _ _ _ returned => exact returned
  | awaiting started awaited calls returned =>
    exfalso
    have hask := h.asking (by simp [awaited])
    have hpend : t.rx.sys.promise t.rx.chunks.length = .pending := by
      by_contra hne
      refine hex (.rx (.resume false)) ⟨rfl, ?_⟩
      simpa [Reading.Enabled, Reading.readReturn, awaited] using hne
    have hposted := hcorr.posted_length
    have hserved := hcorr.transit.served_le
    have hreceived := hcorr.transit.received_le
    have hout := hcorr.transit.outstanding
    rw [hmain, List.length_nil, Nat.add_zero] at hout
    have hans : t.rx.sys.answered ≤ t.rx.chunks.length := by
      by_contra hlt
      exact hser.invariant.settled.answered hser.held _ (by omega) hpend
    have hreplies : t.rx.sys.replies.length ≤ t.rx.sys.answered := by
      apply List.drop_eq_nil_iff.mp
      rw [← hcorr.transit.replies_eq, hmain]
    obtain ⟨post, posts, hq⟩ : ∃ post posts, t.rx.sys.toWorker = post :: posts := by
      apply List.exists_cons_of_ne_nil
      intro hnil
      simp only [hnil, List.length_nil, List.length_map] at hout hserved
      omega
    have hchannel : t.channel = [] := by
      by_contra hne
      obtain ⟨msg, msgs, hc⟩ := List.exists_cons_of_ne_nil hne
      refine hex (.rxExec (.ok (.bytes msg))) ?_
      simp only [Enabled, ServesHead, hq, hc]
      exact fun _ _ _ => rfl
    have htaken : (messages t.tx).length ≤ t.rx.sys.executed.length := by
      apply List.drop_eq_nil_iff.mp
      rw [← hser.channel, hchannel]
    have hexec := hcorr.executed_length
    have hchunks : t.rx.chunks = contents w := by
      rw [← h.messages_done hex]
      exact hcol.chunks.eq_of_length_le (by omega)
    have hbytes := hcol.bytes
    rw [hchunks] at hbytes
    omega

end Working

/-! ## The end -/

theorem decreasing {w : WriteArgs} {size : ℕ} (hw : Chunked w)
    (hfit : ∀ c ∈ w.chunks, c.data.length ≤ size) (hn : 1 ≤ w.writesPerTick) (minBytesRead : ℕ)
    (fd : ℤ) : (machine w (readArgs fd minBytesRead size)).Decreasing (fun _ _ => True)
      (Working w minBytesRead size) (left w) where
  kept _ _ h he := (h.step hw hfit hn he).1
  le _ _ h he := (h.step hw hfit hn he).2.le
  lt _ _ h he _ := (h.step hw hfit hn he).2

/-- Whatever the order of steps, a transfer ends: the write loop is done and the reader has
the whole buffer. -/
theorem transfer_ends (mode : Mode) (fdTx fdRx : ℤ) (isBuffer : Bool) (B : Bytes)
    (m writesPerTick readBufSize : ℕ) (hm : 1 ≤ m) (hsize : m ≤ readBufSize)
    (hn : 1 ≤ writesPerTick) :
    ∃ chunks, sliceBufferToChunks B m B.length 0 = some chunks ∧
      let w := writeArgs mode fdTx isBuffer chunks writesPerTick
      (machine w (readArgs fdRx B.length readBufSize)).Inevitable (fun _ _ => True)
        (fun t => Complete w t.tx ∧ ∃ received,
          t.rx.returned = some (.fulfilled received) ∧ received.flatten = B) initial := by
  obtain ⟨chunks, hslice, hdeliver⟩ :=
    transfer_delivers mode fdTx fdRx isBuffer B m writesPerTick readBufSize hm hsize
  have hslices : chunks = slices m B := by
    have h : sliceBufferToChunks B m B.length (0 : ℕ) = _ := sliceBufferToChunks_eq hm (by omega)
    have h' : sliceBufferToChunks B m B.length 0 = some (slices m B) := by simpa using h
    exact Option.some.inj (hslice.symm.trans h')
  refine ⟨chunks, hslice, ?_⟩
  intro w
  have hdata : w.chunks.map BufferView.data = slices m B :=
    hslices ▸ writeArgs_data mode fdTx isBuffer chunks writesPerTick
  have hfit : ∀ c ∈ w.chunks, c.data.length ≤ readBufSize := by
    intro c hc
    have hmem : c.data ∈ slices m B := hdata ▸ List.mem_map_of_mem hc
    exact (mem_slices hm hmem).trans hsize
  have hall : (contents w).flatten = B := by
    rw [contents, hdata, filter_slices hm, flatten_pieces hm]
  have hdec := decreasing (writeArgs_chunked mode fdTx isBuffer chunks writesPerTick) hfit hn
    B.length fdRx
  refine { (hdec.inevitable (G := fun _ => True) (initial_working w _ _) fun _ _ _ => trivial) with
    final := fun t ht hex => ?_ }
  have hwork := hdec.execution (initial_working w _ _) ht
  have hstuck : ∀ e, ¬ Enabled w t e := fun e he => hex e he trivial
  have hcomplete := (hwork.writer_done hstuck).2.2
  have hreturned := hwork.reader_done hstuck (by rw [hall])
  exact ⟨hcomplete, _, hreturned, (hdeliver t ht hcomplete _ hreturned).2.2.1⟩

theorem transfer_ends_threeBytes :
    ∃ t, (machine threeBytes (readArgs 2 3 2)).Execution initial t ∧ Complete threeBytes t.tx ∧
      ∃ received, t.rx.returned = some (.fulfilled received) ∧ received.flatten = [1, 2, 3] := by
  obtain ⟨chunks, hslice, h⟩ :=
    transfer_ends .yieldingLoop 1 2 true [1, 2, 3] 2 1 2 (by decide) (by decide) (by decide)
  have hchunks : chunks = [[1, 2], [3], []] :=
    Option.some.inj (hslice.symm.trans (by decide))
  subst hchunks
  obtain ⟨t, ht, -, hg⟩ := h.reached
  exact ⟨t, ht, hg⟩

end Transfer
