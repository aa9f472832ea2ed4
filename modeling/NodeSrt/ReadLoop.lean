import Mathlib.Algebra.GroupWithZero.Nat
import NodeSrt.ReaderWriter
import Mathlib.Tactic.SplitIfs

/-! # The read loop alone

`readChunks` with its reads free to come to anything: a byte array, SRT_ERROR, `null`, any
other value, or a rejection. -/
namespace ReadLoop

open AsyncValues
open TransitionSystem
open AsyncApi
open ReadModes

/-- The locals of the call. `reading` is set while a read is awaited, `reads` counts the calls
of `read`, and `consumed` holds what the awaited ones have come to. -/
structure Loop where
  bytesRead : ℤ
  chunks : List Bytes
  anyFailures : Bool
  started : Bool
  reading : Bool
  reads : ℕ
  consumed : List ReturnValue
  onReads : List Bytes
  onErrors : List ReturnValue
  returned : Option ReadOutcome

def initial : Loop where
  bytesRead := 0
  chunks := []
  anyFailures := false
  started := false
  reading := false
  reads := 0
  consumed := []
  onReads := []
  onErrors := []
  returned := none

variable (p : ReadArgs)

def Loop.loopHead (s : Loop) : Loop :=
  if s.bytesRead < p.minBytesRead then { s with reads := s.reads + 1, reading := true }
  else { s with returned := some (.fulfilled s.chunks) }

def Loop.handle (s : Loop) (readReturn : ReturnValue) (threw : Bool) : Loop :=
  match readReturn with
  | .bytes readBuf =>
    let s := { s with bytesRead := s.bytesRead + readBuf.length }
    let s := if p.onRead then { s with onReads := s.onReads ++ [readBuf] } else s
    if p.onRead && threw then { s with returned := some (.rejected .handler) }
    else { s with chunks := s.chunks ++ [readBuf] }.loopHead p
  | readReturn =>
    if s.anyFailures then { s with returned := some (.fulfilled s.chunks) }
    else if readReturn = .number SRT_ERROR ∨ readReturn = .null then
      let s := if p.onError then { s with onErrors := s.onErrors ++ [readReturn] } else s
      if p.onError && threw then { s with returned := some (.rejected .handler) }
      else s.loopHead p
    else { s with returned := some (.rejected (.unexpectedResult readReturn)) }

/-- The awaited read has come to a value; `threw` says how a handler called for it ends. -/
def Loop.resume (s : Loop) (readReturn : ReturnValue) (threw : Bool) : Loop :=
  { s with reading := false, consumed := s.consumed ++ [readReturn] }.handle p readReturn threw

inductive LoopEvent where
  | begin
  | resume (readReturn : ReturnValue) (threw : Bool)
  | reject (e : AsyncError)

def Loop.Enabled (s : Loop) : LoopEvent → Prop
  | .begin => s.started = false
  | .resume _ _ | .reject _ => s.reading = true

instance (s : Loop) : (e : LoopEvent) → Decidable (s.Enabled e)
  | .begin => inferInstanceAs (Decidable (_ = _))
  | .resume _ _ | .reject _ => inferInstanceAs (Decidable (_ = _))

def Loop.next (s : Loop) : LoopEvent → Loop
  | .begin => { s with started := true }.loopHead p
  | .resume readReturn threw => s.resume p readReturn threw
  | .reject e => { s with reading := false, returned := some (.rejected (.rejected e)) }

def loopMachine : Machine Loop LoopEvent := ⟨Loop.Enabled, Loop.next p⟩

instance (s : Loop) (e : LoopEvent) : Decidable ((loopMachine p).Enabled s e) :=
  inferInstanceAs (Decidable (s.Enabled e))

/-! ## Kinds of outcomes -/

def Fails (r : ReturnValue) : Prop := r = .number SRT_ERROR ∨ r = .null

instance (r : ReturnValue) : Decidable (Fails r) := inferInstanceAs (Decidable (_ ∨ _))

def byteArray : ReturnValue → Option Bytes
  | .bytes readBuf => some readBuf
  | _ => none

def byteArrays (outcomes : List ReturnValue) : List Bytes := outcomes.filterMap byteArray

def Unexpected (r : ReturnValue) : Prop := byteArray r = none ∧ ¬ Fails r

instance (r : ReturnValue) : Decidable (Unexpected r) := inferInstanceAs (Decidable (_ ∧ _))

def totalLength (chunks : List Bytes) : ℕ := (chunks.map List.length).sum

/-- The handler that is called for an outcome, if it is given, throws. -/
def handlerThrows (r : ReturnValue) (threw : Bool) : Bool :=
  (if (byteArray r).isSome then p.onRead else p.onError) && threw

/-! ## What the loop does with an outcome -/

variable {p} {s : Loop}

theorem handle_bytes (readBuf : Bytes) (threw : Bool) :
    s.handle p (.bytes readBuf) threw =
      let t := { s with
        bytesRead := s.bytesRead + readBuf.length
        onReads := if p.onRead then s.onReads ++ [readBuf] else s.onReads }
      if p.onRead && threw then { t with returned := some (.rejected .handler) }
      else { t with chunks := s.chunks ++ [readBuf] }.loopHead p := by
  cases h : p.onRead <;> simp [Loop.handle, h]

/-- As the flag is never set, a failure is reported and the loop goes on. -/
theorem handle_fails {r : ReturnValue} (hf : s.anyFailures = false) (hr : Fails r)
    (threw : Bool) :
    s.handle p r threw =
      let t := { s with onErrors := if p.onError then s.onErrors ++ [r] else s.onErrors }
      if p.onError && threw then { t with returned := some (.rejected .handler) }
      else t.loopHead p := by
  have hflag : ¬ s.anyFailures = true := by simp [hf]
  rcases hr with rfl | rfl
  · simp only [Loop.handle, if_neg hflag, true_or, if_true]
    cases p.onError <;> rfl
  · simp only [Loop.handle, if_neg hflag, or_true, if_true]
    cases p.onError <;> rfl

theorem handle_unexpected {r : ReturnValue} (hf : s.anyFailures = false) (hr : Unexpected r)
    (threw : Bool) :
    s.handle p r threw = { s with returned := some (.rejected (.unexpectedResult r)) } := by
  obtain ⟨hb, hn⟩ := hr
  cases r with
  | bytes readBuf => cases hb
  | _ =>
    simp only [Fails] at hn
    simp only [Loop.handle, hf, Bool.false_eq_true, if_false, if_neg hn]

theorem outcome_cases (r : ReturnValue) :
    (∃ readBuf, r = .bytes readBuf) ∨ Fails r ∨ Unexpected r := by
  cases r with
  | bytes readBuf => exact Or.inl ⟨readBuf, rfl⟩
  | _ => exact Or.inr (Classical.or_iff_not_imp_left.mpr fun hn => ⟨rfl, hn⟩)

theorem Fails.byteArray {r : ReturnValue} (h : Fails r) : byteArray r = none := by
  rcases h with rfl | rfl <;> rfl

end ReadLoop

/-! ## The loop over an instance -/

namespace ReadModes

open AsyncValues
open TransitionSystem
open AsyncApi

/-- The loop in a state of `readChunks`, with the histories it does not keep itself. -/
def Reading.loop (s : Reading) (reads : ℕ) (consumed : List ReturnValue) : ReadLoop.Loop where
  bytesRead := s.bytesRead
  chunks := s.chunks
  anyFailures := s.anyFailures
  started := s.started
  reading := s.awaited.isSome
  reads := reads
  consumed := consumed
  onReads := s.onReads
  onErrors := s.onErrors
  returned := s.returned

variable {p : ReadArgs} {s : Reading} {reads : ℕ} {consumed : List ReturnValue}

theorem loop_loopHead (s : Reading) (reads : ℕ) (consumed : List ReturnValue) :
    ∃ reads', (s.loopHead p).loop reads' consumed = (s.loop reads consumed).loopHead p := by
  by_cases h : s.bytesRead < p.minBytesRead
  · refine ⟨reads + 1, ?_⟩
    simp [Reading.loopHead, ReadLoop.Loop.loopHead, Reading.loop, h]
  · refine ⟨reads, ?_⟩
    simp [Reading.loopHead, ReadLoop.Loop.loopHead, Reading.loop, h]

theorem loop_handle (s : Reading) (reads : ℕ) (consumed : List ReturnValue) (r : ReturnValue)
    (threw : Bool) :
    ∃ reads', (s.handle p r threw).loop reads' consumed =
      (s.loop reads consumed).handle p r threw := by
  cases r with
  | bytes readBuf =>
    simp only [Reading.handle, ReadLoop.Loop.handle]
    cases p.onRead with
    | false => exact loop_loopHead { s with
        bytesRead := s.bytesRead + readBuf.length
        chunks := s.chunks ++ [readBuf] } reads consumed
    | true =>
      cases threw with
      | true => exact ⟨reads, rfl⟩
      | false => exact loop_loopHead { s with
          bytesRead := s.bytesRead + readBuf.length
          onReads := s.onReads ++ [readBuf]
          chunks := s.chunks ++ [readBuf] } reads consumed
  | _ =>
    simp only [Reading.handle, ReadLoop.Loop.handle]
    have hflag : (s.loop reads consumed).anyFailures = s.anyFailures := rfl
    rw [hflag]
    split_ifs
    all_goals first
      | exact ⟨reads, rfl⟩
      | exact loop_loopHead _ reads consumed

theorem step_simulates (reads : ℕ) (consumed : List ReturnValue) {e : ReadEvent}
    (he : s.Enabled e) : ∃ reads' consumed',
    (ReadLoop.loopMachine p).Execution (s.loop reads consumed)
      ((s.next p e).loop reads' consumed') := by
  cases e with
  | sys e => exact ⟨reads, consumed, .refl _⟩
  | begin =>
    obtain ⟨reads', hstep⟩ := loop_loopHead (p := p) { s with started := true } reads consumed
    refine ⟨reads', consumed, ?_⟩
    have hrun := Machine.Execution.step (M := ReadLoop.loopMachine p) (s := s.loop reads consumed)
      (e := .begin) he
    exact hstep.symm ▸ hrun
  | resume threw =>
    have he : s.readReturn ≠ .pending := he
    have hreading : (s.loop reads consumed).reading = true := by
      cases ha : s.awaited with
      | none => simp [Reading.readReturn, ha] at he
      | some r => simp [Reading.loop, ha]
    cases hr : s.readReturn with
    | pending => exact absurd hr he
    | rejected e =>
      refine ⟨reads, consumed, ?_⟩
      have hrun := Machine.Execution.step (M := ReadLoop.loopMachine p) (e := .reject e) hreading
      simp only [Reading.next, Reading.resume, hr]
      exact hrun
    | fulfilled r =>
      obtain ⟨reads', hstep⟩ := loop_handle (p := p) { s with awaited := none } reads
        (consumed ++ [r]) r threw
      refine ⟨reads', consumed ++ [r], ?_⟩
      have hrun := Machine.Execution.step (M := ReadLoop.loopMachine p) (e := .resume r threw)
        hreading
      simp only [Reading.next, Reading.resume, hr, hstep]
      exact hrun

/-- Every run over an instance is a run of the loop alone. -/
theorem reading_refines_loop (h : (readingMachine p).Execution .initial s) :
    ∃ reads consumed, (ReadLoop.loopMachine p).Execution ReadLoop.initial
      (s.loop reads consumed) :=
  h.invariant (I := fun s => ∃ reads consumed,
      (ReadLoop.loopMachine p).Execution ReadLoop.initial (s.loop reads consumed))
    ⟨0, [], .refl _⟩ fun u e ⟨reads, consumed, hrun⟩ he => by
      obtain ⟨reads', consumed', hstep⟩ := step_simulates (p := p) reads consumed he
      exact ⟨reads', consumed', hrun.trans hstep⟩

end ReadModes
