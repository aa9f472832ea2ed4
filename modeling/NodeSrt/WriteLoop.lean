import NodeSrt.WriteModes

/-! # The write loops alone

The two write modes with the promises of their writes free to settle in any order and any
way. `write` is not looked into here; the reactions and the ticks are those of `WriteModes`. -/
namespace WriteLoop

open AsyncValues
open TransitionSystem
open AsyncApi
open WriteModes

/-- The locals of the call. `issued` holds the chunks given to `write` so far, `promises` the
promises it gave for them; `threw` are the chunks whose reaction ended in an error. -/
structure Loop where
  chunkIndex : ℕ
  chunkWrittenIdx : ℕ
  tickStart : ℕ
  interval : Bool
  issued : List BufferView
  promises : ℕ → Settlement
  handled : List ℕ
  threw : List ℕ
  onWrites : List (ℕ × ReturnValue × ℕ)
  returned : Settlement

def initial : Loop where
  chunkIndex := 0
  chunkWrittenIdx := 0
  tickStart := 0
  interval := true
  issued := []
  promises _ := .pending
  handled := []
  threw := []
  onWrites := []
  returned := .pending

variable (p : WriteArgs)

def Loop.write (s : Loop) (chunk : BufferView) : Loop :=
  { s with chunkIndex := s.chunkIndex + 1, issued := s.issued ++ [chunk] }

def Loop.tickLoop (outOfChunks : Loop → Loop) : ℕ → Loop → Loop
  | 0, s => s
  | i + 1, s =>
    match p.chunks[s.chunkIndex]? with
    | none => outOfChunks s
    | some chunk => Loop.tickLoop outOfChunks i (s.write chunk)

def writeChunksWithYieldingLoop.tick (s : Loop) : Loop :=
  Loop.tickLoop p (fun s => s) p.writesPerTick { s with tickStart := s.chunkIndex }

def Loop.clearInterval (s : Loop) : Loop := { s with interval := false }

def writeChunksWithExplicitScheduling.tick (s : Loop) : Loop :=
  Loop.tickLoop p Loop.clearInterval p.writesPerTick { s with tickStart := s.chunkIndex }

def Loop.tick (s : Loop) : Loop :=
  match p.mode with
  | .yieldingLoop => writeChunksWithYieldingLoop.tick p s
  | .explicitScheduling => writeChunksWithExplicitScheduling.tick p s

def Loop.settle (s : Loop) (i : ℕ) (st : Settlement) : Loop :=
  { s with promises := Function.update s.promises i st }

def Loop.thenWritten (s : Loop) (i : ℕ) (threw : Bool) : Loop :=
  match s.promises i with
  | .pending => s
  | .rejected _ => { s with handled := s.handled ++ [i] }
  | .fulfilled writeRes =>
    let s := { s with handled := s.handled ++ [i] }
    if writeRes = .number SRT_ERROR then { s with threw := s.threw ++ [i] }
    else
      let s := { s with
        onWrites := if p.onWrite then s.onWrites ++ [(i, writeRes, s.chunkWrittenIdx)]
          else s.onWrites }
      if p.onWrite && threw then { s with threw := s.threw ++ [i] }
      else { s with chunkWrittenIdx := s.chunkWrittenIdx + 1 }

def Loop.TickWritten (s : Loop) : Prop :=
  ∀ i < s.chunkIndex, s.tickStart ≤ i → i ∈ s.handled ∧ isFulfilled (s.promises i) = true

instance (s : Loop) : Decidable s.TickWritten :=
  inferInstanceAs (Decidable (∀ i < s.chunkIndex, _ → _ ∧ _))

inductive LoopEvent where
  | tick
  | settle (i : ℕ) (st : Settlement)
  | thenWritten (i : ℕ) (threw : Bool)
  | finish
  | fail (i : ℕ)

def Loop.Enabled (s : Loop) : LoopEvent → Prop
  | .tick =>
    match p.mode with
    | .yieldingLoop => s.returned = .pending ∧ s.chunkIndex < p.chunks.length ∧ s.TickWritten
    | .explicitScheduling => s.interval = true
  | .settle i st => i < s.chunkIndex ∧ s.promises i = .pending ∧ st ≠ .pending
  | .thenWritten i _ => s.promises i ≠ .pending ∧ i ∉ s.handled
  | .finish => p.mode = .yieldingLoop ∧ s.returned = .pending ∧
      p.chunks.length ≤ s.chunkIndex ∧ s.TickWritten
  | .fail i => p.mode = .yieldingLoop ∧ s.returned = .pending ∧ s.tickStart ≤ i ∧
      i ∈ s.handled ∧ isFulfilled (s.promises i) = false

instance (s : Loop) : Decidable (s.Enabled p .tick) :=
  match h : p.mode with
  | .yieldingLoop => decidable_of_iff
      (s.returned = .pending ∧ s.chunkIndex < p.chunks.length ∧ s.TickWritten)
      (by simp [Loop.Enabled, h])
  | .explicitScheduling => decidable_of_iff (s.interval = true) (by simp [Loop.Enabled, h])

instance (s : Loop) : (e : LoopEvent) → Decidable (s.Enabled p e)
  | .tick => inferInstance
  | .settle _ _ => inferInstanceAs (Decidable (_ ∧ _ ∧ _))
  | .thenWritten _ _ => inferInstanceAs (Decidable (_ ≠ _ ∧ _ ∉ _))
  | .finish => inferInstanceAs (Decidable (_ ∧ _ ∧ _ ∧ _))
  | .fail _ => inferInstanceAs (Decidable (_ ∧ _ ∧ _ ∧ _ ∧ _))

def Loop.next (s : Loop) : LoopEvent → Loop
  | .tick => s.tick p
  | .settle i st => s.settle i st
  | .thenWritten i threw => s.thenWritten p i threw
  | .finish => { s with returned := .fulfilled .undefined }
  | .fail i => { s with returned := s.promises i }

def loopMachine : Machine Loop LoopEvent := ⟨Loop.Enabled p, Loop.next p⟩

instance (s : Loop) (e : LoopEvent) : Decidable ((loopMachine p).Enabled s e) :=
  inferInstanceAs (Decidable (s.Enabled p e))

/-! ## What a tick does -/

def Loop.tickChunks (s : Loop) : List BufferView :=
  (p.chunks.drop s.chunkIndex).take p.writesPerTick

theorem tickLoop_eq (outOfChunks : Loop → Loop) (n : ℕ) (s : Loop) :
    Loop.tickLoop p outOfChunks n s =
      (if n ≤ p.chunks.length - s.chunkIndex then id else outOfChunks)
        { s with
          chunkIndex := s.chunkIndex + ((p.chunks.drop s.chunkIndex).take n).length
          issued := s.issued ++ (p.chunks.drop s.chunkIndex).take n } := by
  induction n generalizing s with
  | zero => simp [Loop.tickLoop]
  | succ n ih =>
    cases hc : p.chunks[s.chunkIndex]? with
    | none =>
      have hlen := List.getElem?_eq_none_iff.mp hc
      have hout : ¬ n + 1 ≤ p.chunks.length - s.chunkIndex := by omega
      simp [Loop.tickLoop, hc, List.drop_eq_nil_of_le hlen, hout]
    | some chunk =>
      obtain ⟨hlt, hget⟩ := List.getElem?_eq_some_iff.mp hc
      have hcut : (p.chunks.drop s.chunkIndex).take (n + 1) =
          chunk :: (p.chunks.drop (s.chunkIndex + 1)).take n := by
        rw [List.drop_eq_getElem_cons hlt, List.take_succ_cons, hget]
      have hleft : n ≤ p.chunks.length - (s.chunkIndex + 1) ↔
          n + 1 ≤ p.chunks.length - s.chunkIndex := by omega
      rw [hcut]
      simp only [Loop.tickLoop, hc, ih, Loop.write, hleft, List.length_cons, List.append_assoc,
        List.singleton_append, Nat.add_right_comm _ 1, Nat.add_assoc]

theorem tick_eq (s : Loop) :
    s.tick p =
      { s with
        tickStart := s.chunkIndex
        chunkIndex := s.chunkIndex + (s.tickChunks p).length
        issued := s.issued ++ s.tickChunks p
        interval := s.interval && p.keepsInterval s.chunkIndex } := by
  simp only [Loop.tick, writeChunksWithYieldingLoop.tick,
    writeChunksWithExplicitScheduling.tick, tickLoop_eq, WriteArgs.keepsInterval]
  cases hm : p.mode with
  | yieldingLoop =>
    simp only [decide_true, Bool.true_or, Bool.and_true]
    split <;> rfl
  | explicitScheduling =>
    by_cases hle : p.writesPerTick ≤ p.chunks.length - s.chunkIndex
    · simp [hle, Loop.tickChunks]
    · simp [hle, Loop.clearInterval, Loop.tickChunks]

theorem length_tickChunks (s : Loop) :
    (s.tickChunks p).length = min p.writesPerTick (p.chunks.length - s.chunkIndex) := by
  simp [Loop.tickChunks]

end WriteLoop
