import NodeSrt.ReaderWriter
import NodeSrt.WriteLoopRefinement

/-! # Where a failed write surfaces

Each write's promise is used twice: by the `Promise.all` of its tick, which the loop awaits,
and by `whenWritten.then`, whose result nobody keeps. A write that fails rejects both. -/
namespace WriteLoop

open AsyncValues
open TransitionSystem
open AsyncApi
open WriteModes

/-- The promises a call creates: for each chunk that of `write` and that of its `then`, for each
tick its `Promise.all`, the one returned, and the one `AsyncReaderWriter.writeChunks` returns. -/
inductive CreatedPromise where
  | whenWritten (i : ℕ)
  | thenResult (i : ℕ)
  | all (tickStart : ℕ)
  | returned
  | writeChunks
  deriving DecidableEq, Repr

/-- What takes the rejection of a promise over. A `then` without a second argument counts, as
it passes the rejection on to its own result. -/
inductive Use where
  | thenFulfilled | promiseAll | await | adoption | caller
  deriving DecidableEq, Repr

/-- What the code does with the promises, and the caller with the one it is given. -/
def CreatedPromise.uses : CreatedPromise → List Use
  | .whenWritten _ => [.promiseAll, .thenFulfilled]
  | .thenResult _ => []
  | .all _ => [.await]
  | .returned => [.adoption, .caller]
  | .writeChunks => [.caller]

def Loop.isRejected (s : Loop) (i : ℕ) : Prop := ∃ e, s.promises i = .rejected e

variable (p : WriteArgs)

/-- A promise has rejected. The result of a `then` does so when the write has, and when the
reaction throws on SRT_ERROR or out of `onWrite`. -/
def CreatedPromise.Rejects (s : Loop) : CreatedPromise → Prop
  | .whenWritten i => s.isRejected i
  | .thenResult i => i ∈ s.handled ∧ (s.isRejected i ∨ i ∈ s.threw)
  | .all tickStart => ∃ i ∈ s.handled, tickStart ≤ i ∧ i < tickStart + p.writesPerTick ∧
      s.isRejected i
  | .returned | .writeChunks => ∃ e, s.returned = .rejected e

/-- Node emits `unhandledRejection` for a promise that rejects with nothing attached. -/
def NoUnhandledRejection (s : Loop) : Prop :=
  ∀ c : CreatedPromise, c.Rejects p s → c.uses ≠ []

/-- The loop is called directly or by `AsyncReaderWriter.writeChunks`. -/
inductive Called : WriteArgs → Prop where
  | directly {p : WriteArgs} : p.mode = .yieldingLoop → Called p
  | byWriteChunks {fd : JSValue} {isBuffer : Bool} {buffer : Bytes} {writesPerTick mtuSize : ℕ}
      {onWrite : Bool} {p : WriteArgs} :
      ReaderWriter.writeChunks fd isBuffer buffer writesPerTick mtuSize onWrite = some p → Called p

variable {p} {s : Loop}

theorem Called.mode (h : Called p) : p.mode = .yieldingLoop := by
  cases h with
  | directly hmode => exact hmode
  | byWriteChunks hp => exact ReaderWriter.mode_of_writeChunks hp

theorem noUnhandledRejection_iff : NoUnhandledRejection p s ↔
    ∀ i ∈ s.handled, ¬ s.isRejected i ∧ i ∉ s.threw := by
  constructor
  · intro h i hi
    have hno : ¬ (CreatedPromise.thenResult i).Rejects p s := fun hr => h _ hr rfl
    simp only [CreatedPromise.Rejects, hi, true_and, not_or] at hno
    exact hno
  · intro h c hc
    cases c with
    | thenResult i =>
      obtain ⟨hi, hr | ht⟩ := hc
      · exact absurd hr (h i hi).1
      · exact absurd ht (h i hi).2
    | whenWritten i | all tickStart | returned | writeChunks => simp [CreatedPromise.uses]

namespace Flowing

theorem not_isRejected_iff (h : Flowing p s) {i : ℕ} (hi : i ∈ s.handled) :
    ¬ s.isRejected i ↔ isFulfilled (s.promises i) = true := by
  cases hp : s.promises i with
  | pending => exact absurd hp (h.settled i hi)
  | fulfilled v => simp [Loop.isRejected, hp, isFulfilled]
  | rejected e => simp [Loop.isRejected, hp, isFulfilled]

theorem noUnhandledRejection_iff (h : Flowing p s) :
    NoUnhandledRejection p s ↔ ∀ i ∈ s.handled, s.succeeded i = true := by
  rw [WriteLoop.noUnhandledRejection_iff]
  refine forall₂_congr fun i hi => ?_
  rw [h.not_isRejected_iff hi]
  simp [Loop.succeeded]

/-- In a run that has ended every write has been reacted to. -/
theorem handled_of_stuck (h : Flowing p s) (hmode : p.mode = .yieldingLoop)
    (hstuck : ∀ e, ¬ s.Enabled p e) (i : ℕ) : i ∈ s.handled ↔ i < s.issued.length := by
  rw [h.length_issued]
  constructor
  · intro hi
    by_contra hge
    exact h.settled i hi (h.unissued i (not_lt.mp hge))
  · intro hi
    by_contra hno
    exact hstuck (.thenWritten i false) ⟨(stuck_returned hmode hstuck).1 i hi, hno⟩

theorem stuck_noUnhandledRejection_iff (h : Flowing p s) (hmode : p.mode = .yieldingLoop)
    (hstuck : ∀ e, ¬ s.Enabled p e) :
    NoUnhandledRejection p s ↔ ∀ i < s.issued.length, s.succeeded i = true := by
  rw [h.noUnhandledRejection_iff]
  exact forall_congr' fun i => imp_congr (h.handled_of_stuck hmode hstuck i) Iff.rfl

end Flowing

/-- Rejections are all handled exactly as long as no write has failed and no `onWrite` has
thrown. So a run that ends after some write failed leaves one unhandled, however its writes
settle, and so does a run over the instance once the reaction of a failed write has run. -/
theorem rejections_handled_iff (p : WriteArgs) (hcalled : Called p) :
    (∀ s, (loopMachine p).Execution initial s →
      (NoUnhandledRejection p s ↔ ∀ i ∈ s.handled, s.succeeded i = true) ∧
      ((∀ e, ¬ s.Enabled p e) →
        (NoUnhandledRejection p s ↔ ∀ i < s.issued.length, s.succeeded i = true) ∧
        ((∃ i < s.issued.length, s.isRejected i) →
          ¬ NoUnhandledRejection p s ∧ ∃ e, s.returned = .rejected e))) ∧
    ∀ s, (writingMachine p).Execution .initial s →
      (NoUnhandledRejection p (s.loop p) ↔
        ∀ i ∈ s.handled, (s.loop p).succeeded i = true) := by
  have hmode := hcalled.mode
  refine ⟨fun s h => ?_, fun s h => ?_⟩
  · have hf := execution_flowing hmode h
    refine ⟨hf.noUnhandledRejection_iff, fun hstuck => ?_⟩
    refine ⟨hf.stuck_noUnhandledRejection_iff hmode hstuck, fun ⟨i, hi, e, hr⟩ => ⟨?_, ?_⟩⟩
    · intro hno
      have hs := (hf.stuck_noUnhandledRejection_iff hmode hstuck).mp hno i hi
      simp [Loop.succeeded, hr, isFulfilled] at hs
    · exact (hf.ends hmode hstuck).2 i (hf.length_issued ▸ hi) (by simp [hr, isFulfilled])
  · exact (execution_flowing hmode (writing_refines_loop h)).noUnhandledRejection_iff

def secondWriteFails : List LoopEvent :=
  [.tick, .settle 0 (.fulfilled (.number 2)), .settle 1 (.rejected .writeFailed),
    .thenWritten 0 false, .thenWritten 1 false, .fail 1]

theorem rejections_handled_iff_twoChunks :
    NoUnhandledRejection twoChunks ((loopMachine twoChunks).runTrace initial secondWriteFails) ↔
      ∀ i ∈ ((loopMachine twoChunks).runTrace initial secondWriteFails).handled,
        ((loopMachine twoChunks).runTrace initial secondWriteFails).succeeded i = true :=
  ((rejections_handled_iff twoChunks (.directly rfl)).1 _
    ((loopMachine twoChunks).execution_of_trace _ secondWriteFails (by decide))).1

/-- The caller handles the promise it is given, and still a rejection is left unhandled. -/
theorem failed_write_is_unhandled :
    ¬ ∀ (p : WriteArgs) (s : Loop), Called p → 1 ≤ p.writesPerTick →
      (loopMachine p).Execution initial s → NoUnhandledRejection p s := by
  intro h
  have hno := h twoChunks _ (.directly rfl) (by decide)
    ((loopMachine twoChunks).execution_of_trace initial secondWriteFails (by decide))
  exact hno (.thenResult 1) ⟨by decide, Or.inl ⟨.writeFailed, by decide⟩⟩ rfl

end WriteLoop
