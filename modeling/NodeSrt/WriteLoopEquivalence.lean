import NodeSrt.WriteLoopRefinement

/-! # The two write modes make the same calls

With writes that are answered in order and all succeed, the loops differ in when their ticks
come and in nothing they call. The invariant says that a loop has made the calls of the one
list that its handler decides, up to where it stands. -/
namespace WriteLoop

open AsyncValues
open TransitionSystem
open AsyncApi
open WriteModes

variable (p : WriteArgs) (throws : ℕ → Bool)

/-- Every write succeeds, and `onWrite` throws when it is called for a chunk in `throws`. -/
def Succeeds : LoopEvent → Prop
  | .settle _ st => isFulfilled st = true
  | .thenWritten i threw => threw = throws i
  | .tick | .finish | .fail _ => True

instance : (e : LoopEvent) → Decidable (Succeeds throws e)
  | .settle _ _ | .thenWritten _ _ => inferInstanceAs (Decidable (_ = _))
  | .tick | .finish | .fail _ => isTrue trivial

def succeedingMachine : Machine Loop LoopEvent :=
  (loopMachine p).restrict fun s e => AnswersInOrder p s e ∧ Succeeds throws e

instance (s : Loop) (e : LoopEvent) : Decidable ((succeedingMachine p throws).Enabled s e) :=
  inferInstanceAs (Decidable (s.Enabled p e ∧ AnswersInOrder p s e ∧ Succeeds throws e))

/-- The calls of `onWrite` before that for a chunk which came to their end. -/
def returnedBefore (i : ℕ) : ℕ :=
  ((List.range i).filter fun j => !(p.onWrite && throws j)).length

/-- All calls of `onWrite`, in order: the chunk, its length and the index given. -/
def reports : List (ℕ × ReturnValue × ℕ) :=
  if p.onWrite then
    p.chunks.mapIdx fun i chunk => (i, .number chunk.data.length, returnedBefore p throws i)
  else []

/-- The loop has made the first calls of those two lists. -/
structure InStep (s : Loop) : Prop where
  issued : s.issued = p.chunks.take s.chunkIndex
  index_le : s.chunkIndex ≤ p.chunks.length
  answered : ∀ i, s.promises i ≠ .pending → i < s.chunkIndex ∧ ∃ chunk,
    p.chunks[i]? = some chunk ∧ s.promises i = .fulfilled (.number chunk.data.length)
  handled : s.handled = List.range s.handled.length
  settled : ∀ i ∈ s.handled, s.promises i ≠ .pending
  index : s.chunkWrittenIdx = returnedBefore p throws s.handled.length
  reported : s.onWrites = (reports p throws).take s.handled.length
  returned : s.returned ≠ .pending → p.mode = .yieldingLoop ∧ p.chunks.length ≤ s.chunkIndex
  cleared : s.interval = false → p.chunks.length ≤ s.chunkIndex

theorem initial_inStep : InStep p throws initial := by
  constructor <;> simp [initial, returnedBefore]

variable {p throws} {s t : Loop}

theorem returnedBefore_succ (i : ℕ) : returnedBefore p throws (i + 1) =
    returnedBefore p throws i + if p.onWrite && throws i then 0 else 1 := by
  simp only [returnedBefore, List.range_succ, List.filter_append, List.length_append]
  cases h : p.onWrite && throws i <;> simp only [List.filter_cons, h, List.filter_nil] <;> rfl

theorem reports_take_succ {i : ℕ} {chunk : BufferView} (hc : p.chunks[i]? = some chunk) :
    (reports p throws).take (i + 1) = (reports p throws).take i ++
      if p.onWrite then [(i, .number chunk.data.length, returnedBefore p throws i)] else [] := by
  cases ho : p.onWrite with
  | false => simp [reports, ho]
  | true =>
    obtain ⟨hlt, hget⟩ := List.getElem?_eq_some_iff.mp hc
    have hr : i < (reports p throws).length := by simpa [reports, ho] using hlt
    rw [List.take_succ_eq_append_getElem hr]
    simp [reports, ho, hget]

namespace InStep

theorem fulfilled (h : InStep p throws s) {i : ℕ} (hi : s.promises i ≠ .pending) :
    isFulfilled (s.promises i) = true := by
  obtain ⟨-, chunk, -, hp⟩ := h.answered i hi
  rw [hp]
  rfl

/-- The next reaction is that of the first chunk that has not been reacted to. -/
theorem next_handled (h : InStep p throws s) {i : ℕ} (hno : i ∉ s.handled)
    (hbefore : ∀ j < i, j ∈ s.handled) : i = s.handled.length := by
  rw [h.handled] at hno hbefore
  simp only [List.mem_range] at hno hbefore
  have hle : i ≤ s.handled.length := by
    by_contra hlt
    exact absurd (hbefore _ (not_le.mp hlt)) (lt_irrefl _)
  omega

theorem tick_pending (h : InStep p throws s) (he : s.Enabled p .tick) : s.returned = .pending := by
  by_contra hne
  have hm := (h.returned hne).1
  simp only [Loop.Enabled, hm] at he
  exact hne he.1

theorem step_tick (h : InStep p throws s) (hr : s.returned = .pending) :
    InStep p throws (s.tick p) := by
  have hlen := length_tickChunks p s
  have hle := h.index_le
  rw [tick_eq]
  refine ⟨?_, ?_, ?_, h.handled, h.settled, h.index, h.reported, fun hne => absurd hr hne, ?_⟩
  · have hcut : s.tickChunks p = (p.chunks.drop s.chunkIndex).take (s.tickChunks p).length := by
      rw [hlen, Loop.tickChunks, List.take_eq_take_min, List.length_drop]
    dsimp only
    rw [List.take_add, h.issued, ← hcut]
  · dsimp only
    omega
  · intro i hi
    obtain ⟨hlt, hchunk⟩ := h.answered i hi
    exact ⟨hlt.trans_le (Nat.le_add_right _ _), hchunk⟩
  · intro hf
    dsimp only at hf ⊢
    cases hi : s.interval with
    | false => exact (h.cleared hi).trans (Nat.le_add_right _ _)
    | true =>
      obtain ⟨-, hout⟩ := (keepsInterval_eq_false p).mp (by simpa [hi] using hf)
      omega

theorem step_settle (h : InStep p throws s) {i : ℕ} {st : Settlement} (hi : i < s.chunkIndex)
    (hp : s.promises i = .pending) (ho : AnswersInOrder p s (.settle i st))
    (hst : isFulfilled st = true) : InStep p throws (s.settle i st) := by
  have hlt := hi.trans_le h.index_le
  have hold : ∀ j ∈ s.handled, (s.settle i st).promises j = s.promises j := fun j hj =>
    Function.update_of_ne (fun he => h.settled j hj (by rw [he, hp])) _ _
  refine { h with
    answered := fun j hj => ?_
    settled := fun j hj => ne_of_eq_of_ne (hold j hj) (h.settled j hj) }
  by_cases hji : j = i
  · subst hji
    have hnew : (s.settle j st).promises j = st := Function.update_self _ _ _
    exact ⟨hi, _, List.getElem?_eq_getElem hlt,
      hnew.trans (ho _ (List.getElem?_eq_getElem hlt) hst)⟩
  · have hsame : (s.settle i st).promises j = s.promises j := Function.update_of_ne hji _ _
    rw [hsame] at hj ⊢
    exact h.answered j hj

theorem step_thenWritten (h : InStep p throws s) {i : ℕ} (hi : s.promises i ≠ .pending)
    (hno : i ∉ s.handled) (ho : AnswersInOrder p s (.thenWritten i (throws i))) :
    InStep p throws (s.thenWritten p i (throws i)) := by
  obtain ⟨-, chunk, hc, hp⟩ := h.answered i hi
  obtain rfl := h.next_handled hno (ho (h.fulfilled hi))
  have hne : ReturnValue.number chunk.data.length ≠ .number SRT_ERROR := by
    simp only [SRT_ERROR, ne_eq, ReturnValue.number.injEq]
    omega
  have hfr := thenWritten_frame p s s.handled.length (throws s.handled.length)
  have hh := thenWritten_handled p s (throws s.handled.length) hi
  have hlen : (s.handled ++ [s.handled.length]).length = s.handled.length + 1 := by simp
  have hindex : (s.thenWritten p s.handled.length (throws s.handled.length)).chunkWrittenIdx =
      returnedBefore p throws (s.handled.length + 1) := by
    rw [returnedBefore_succ, ← h.index]
    simp only [Loop.thenWritten, hp, if_neg hne]
    split <;> rfl
  have hwrites : (s.thenWritten p s.handled.length (throws s.handled.length)).onWrites =
      (reports p throws).take (s.handled.length + 1) := by
    rw [reports_take_succ hc, ← h.reported, ← h.index]
    simp only [Loop.thenWritten, hp, if_neg hne]
    split <;> split <;> simp
  simp only [Prod.mk.injEq] at hfr
  obtain ⟨e₁, -, e₃, e₄, e₅, e₆⟩ := hfr
  refine ⟨?_, ?_, ?_, ?_, ?_, ?_, ?_, ?_, ?_⟩
  · rw [e₄, e₁, h.issued]
  · rw [e₁]
    exact h.index_le
  · rw [e₁, e₅]
    exact h.answered
  · rw [hh, hlen, List.range_succ, ← h.handled]
  · rw [hh, e₅]
    intro j hj
    rcases List.mem_append.mp hj with hj | hj
    · exact h.settled j hj
    · rwa [List.mem_singleton.mp hj]
  · rw [hindex, hh, hlen]
  · rw [hwrites, hh, hlen]
  · rw [e₆, e₁]
    exact h.returned
  · rw [e₃, e₁]
    exact h.cleared

theorem step (h : InStep p throws s) {e : LoopEvent}
    (he : (succeedingMachine p throws).Enabled s e) : InStep p throws (s.next p e) := by
  obtain ⟨he, ho, hs⟩ := he
  cases e with
  | tick => exact h.step_tick (h.tick_pending he)
  | settle i st => exact h.step_settle he.1 he.2.1 ho hs
  | thenWritten i threw =>
    obtain rfl : threw = throws i := hs
    exact h.step_thenWritten he.1 he.2 ho
  | finish => exact { h with returned := fun _ => ⟨he.1, he.2.2.1⟩ }
  | fail i =>
    obtain ⟨-, -, -, hmem, hno⟩ := he
    rw [h.fulfilled (h.settled i hmem)] at hno
    cases hno

/-- A loop that can go no further has issued every chunk and reacted to every write. -/
theorem complete (h : InStep p throws s) (hend : ∀ e, ¬ (succeedingMachine p throws).Enabled s e) :
    s.chunkIndex = p.chunks.length ∧ s.handled.length = p.chunks.length := by
  have hall : ∀ i < s.chunkIndex, i ∈ s.handled := by
    intro i
    induction i using Nat.strong_induction_on with
    | h i ih =>
      intro hi
      by_contra hno
      have hlt := hi.trans_le h.index_le
      by_cases hp : s.promises i = .pending
      · refine hend (.settle i (.fulfilled (.number p.chunks[i].data.length)))
          ⟨⟨hi, hp, by simp⟩, ?_, rfl⟩
        intro chunk hc _
        rw [Option.some.inj ((List.getElem?_eq_getElem hlt).symm.trans hc)]
      · exact hend (.thenWritten i (throws i))
          ⟨⟨hp, hno⟩, fun _ j hj => ih j hj (hj.trans hi), rfl⟩
  have hindex : s.chunkIndex = p.chunks.length := by
    by_contra hne
    have hlt : s.chunkIndex < p.chunks.length := lt_of_le_of_ne h.index_le hne
    apply hend .tick
    refine ⟨show s.Enabled p .tick from ?_, trivial, trivial⟩
    cases hm : p.mode with
    | yieldingLoop =>
      simp only [Loop.Enabled, hm]
      refine ⟨by_contra fun hr => absurd (h.returned hr).2 (not_le.mpr hlt), hlt, ?_⟩
      exact fun i hi _ => ⟨hall i hi, h.fulfilled (h.settled i (hall i hi))⟩
    | explicitScheduling =>
      simp only [Loop.Enabled, hm]
      by_contra hf
      exact absurd (h.cleared (by simpa using hf)) (not_le.mpr hlt)
  refine ⟨hindex, le_antisymm ?_ ?_⟩
  · by_contra hlt
    have hmem : p.chunks.length ∈ s.handled := by
      rw [h.handled]
      exact List.mem_range.mpr (not_le.mp hlt)
    exact absurd (h.answered _ (h.settled _ hmem)).1 (not_lt.mpr h.index_le)
  · by_contra hlt
    have hmem := hall s.handled.length (hindex ▸ not_le.mp hlt)
    rw [h.handled] at hmem
    exact absurd (List.mem_range.mp hmem) (by simp)

theorem length_reports_le : (reports p throws).length ≤ p.chunks.length := by
  unfold reports
  split <;> simp

end InStep

theorem execution_inStep (h : (succeedingMachine p throws).Execution initial s) :
    InStep p throws s :=
  h.invariant (initial_inStep p throws) fun _ _ hu he => hu.step he

/-! ## Every run comes to an end -/

/-- With at least one write a tick, a tick that issues nothing clears the interval. -/
theorem tick_left (hw : 1 ≤ p.writesPerTick) (he : s.Enabled p .tick) :
    (s.tick p).remaining p + (if (s.tick p).interval then 1 else 0) <
      s.remaining p + if s.interval then 1 else 0 := by
  have hlen := length_tickChunks p s
  have hrest := remaining_tick (p := p) (s := s)
  have hinterval : (s.tick p).interval = (s.interval && p.keepsInterval s.chunkIndex) := by
    rw [tick_eq]
  have hle : (if (s.tick p).interval then 1 else 0) ≤ if s.interval then 1 else 0 := by
    rw [hinterval]
    cases s.interval <;> cases p.keepsInterval s.chunkIndex <;> simp
  by_cases hlt : s.chunkIndex < p.chunks.length
  · omega
  · cases hm : p.mode with
    | yieldingLoop =>
      simp only [Loop.Enabled, hm] at he
      exact absurd he.2.1 hlt
    | explicitScheduling =>
      simp only [Loop.Enabled, hm] at he
      have hout := (keepsInterval_eq_false p).mpr
        ⟨hm, show ¬ p.writesPerTick ≤ p.chunks.length - s.chunkIndex by omega⟩
      simp only [hinterval, he, hout, Bool.and_false, Bool.false_eq_true, if_false, if_true]
      omega

theorem step_left (h : InStep p throws s) (hw : 1 ≤ p.writesPerTick) {e : LoopEvent}
    (he : (succeedingMachine p throws).Enabled s e) :
    (s.next p e).remaining p + (if (s.next p e).interval then 1 else 0) <
      s.remaining p + if s.interval then 1 else 0 := by
  have he : s.Enabled p e := he.1
  cases e with
  | tick => exact tick_left hw he
  | settle i st =>
    have hlt := remaining_settle h.index_le he.1 he.2.1 he.2.2
    exact Nat.add_lt_add_right hlt _
  | thenWritten i threw =>
    have hin := (h.answered i he.1).1.trans_le h.index_le
    have hlt := remaining_thenWritten hin he.1 he.2 threw
    have hfr := thenWritten_frame p s i threw
    simp only [Prod.mk.injEq] at hfr
    simp only [Loop.next, hfr]
    omega
  | finish => exact Nat.add_lt_add_right (remaining_returned he.2.1 (by simp)) _
  | fail i =>
    exact Nat.add_lt_add_right (remaining_returned he.2.1 (h.settled i he.2.2.2.1)) _

theorem length_le_of_validTrace (hw : 1 ≤ p.writesPerTick) {es : List LoopEvent}
    (h : (succeedingMachine p throws).ValidTrace initial es) :
    es.length ≤ 3 * p.chunks.length + 2 := by
  have hstart : initial.remaining p + (if initial.interval then 1 else 0) =
      3 * p.chunks.length + 2 := by
    rw [initial_remaining]
    rfl
  rw [← hstart]
  exact Machine.length_le_of_decreasing (I := InStep p throws)
    (m := fun s => s.remaining p + if s.interval then 1 else 0)
    (fun u e hu he => ⟨hu.step he, step_left hu hw he⟩) (initial_inStep p throws) h

/-! ## The ticks of the interval -/

def LoopEvent.isTick : LoopEvent → Bool
  | .tick => true
  | _ => false

/-- Where the interval stands after some ticks of the other mode. -/
structure Ticked (p : WriteArgs) (chunkIndex : ℕ) (interval : Bool) (ticks : ℕ) : Prop where
  index : chunkIndex = min (ticks * p.writesPerTick) p.chunks.length
  cleared : interval = false ↔ p.chunks.length < ticks * p.writesPerTick
  ticks_le : ticks ≤ p.chunks.length / p.writesPerTick + 1

namespace Ticked

variable {chunkIndex ticks : ℕ} {interval : Bool}

theorem tick (hw : 1 ≤ p.writesPerTick) (h : Ticked p chunkIndex true ticks) :
    Ticked p (chunkIndex + min p.writesPerTick (p.chunks.length - chunkIndex))
      (decide (p.writesPerTick ≤ p.chunks.length - chunkIndex)) (ticks + 1) := by
  have hle : ticks * p.writesPerTick ≤ p.chunks.length := by
    by_contra hlt
    exact absurd (h.cleared.mpr (not_le.mp hlt)) (by simp)
  have hindex := h.index
  have hmul : (ticks + 1) * p.writesPerTick = ticks * p.writesPerTick + p.writesPerTick :=
    Nat.succ_mul _ _
  refine ⟨?_, ?_, ?_⟩
  · omega
  · rw [decide_eq_false_iff_not]
    omega
  · exact Nat.succ_le_succ ((Nat.le_div_iff_mul_le hw).mpr hle)

theorem cleared_iff (hw : 1 ≤ p.writesPerTick) (h : Ticked p chunkIndex interval ticks) :
    interval = false ↔ ticks = p.chunks.length / p.writesPerTick + 1 := by
  have hle := h.ticks_le
  rw [h.cleared, ← Nat.div_lt_iff_lt_mul hw]
  omega

end Ticked

end WriteLoop

namespace WriteModes

open AsyncValues
open TransitionSystem
open AsyncApi
open WriteLoop

variable {p : WriteArgs} {throws : ℕ → Bool} {s t : Writing}

def WriteEvent.isTick : WriteEvent → Bool
  | .tick => true
  | _ => false

theorem step_ticked (hmode : p.mode = .explicitScheduling) (hw : 1 ≤ p.writesPerTick) {k : ℕ}
    (h : Ticked p s.chunkIndex s.interval k) {e : WriteEvent} (he : s.Enabled p e) :
    Ticked p (s.next p e).chunkIndex (s.next p e).interval (k + if e.isTick then 1 else 0) := by
  cases e with
  | tick =>
    simp only [Writing.Enabled, hmode] at he
    rw [he] at h
    have hindex : (s.tick p).chunkIndex =
        s.chunkIndex + min p.writesPerTick (p.chunks.length - s.chunkIndex) := by
      simp only [tick_eq, writeAll_chunkIndex, Writing.tickChunks, List.length_take,
        List.length_drop]
    have hinterval : (s.tick p).interval =
        decide (p.writesPerTick ≤ p.chunks.length - s.chunkIndex) := by
      simp [tick_eq, he, WriteArgs.keepsInterval, hmode]
    simp only [Writing.next, hindex, hinterval]
    exact h.tick hw
  | thenWritten i threw =>
    have hsame : (s.thenWritten p i threw).chunkIndex = s.chunkIndex ∧
        (s.thenWritten p i threw).interval = s.interval := by
      simp only [Writing.thenWritten]
      repeat' split
      all_goals exact ⟨rfl, rfl⟩
    simp only [Writing.next, hsame]
    exact h
  | sys e | finish | fail i => exact h

theorem trace_ticked (hmode : p.mode = .explicitScheduling) (hw : 1 ≤ p.writesPerTick)
    {es : List WriteEvent} (h : (writingMachine p).ValidTrace .initial es) :
    Ticked p ((writingMachine p).runTrace .initial es).chunkIndex
      ((writingMachine p).runTrace .initial es).interval (es.countP WriteEvent.isTick) := by
  have hstart : Ticked p Writing.initial.chunkIndex Writing.initial.interval 0 := by
    constructor <;> simp [Writing.initial]
  have hrun := h.counting (P := WriteEvent.isTick)
    (I := fun s k => Ticked p s.chunkIndex s.interval k)
    (fun u e k hu he => step_ticked hmode hw hu he) hstart
  rwa [Nat.zero_add] at hrun

/-! ## Over the instance -/

/-- Every write of the loop that settles succeeds, and `onWrite` throws as `throws` says. -/
def ChunksSucceed (p : WriteArgs) (throws : ℕ → Bool) (s : Writing) (e : WriteEvent) : Prop :=
  (∀ i < p.chunks.length, (s.next p e).promiseOf i ≠ .pending →
    isFulfilled ((s.next p e).promiseOf i) = true) ∧ ∀ e' ∈ e.loop, Succeeds throws e'

def succeedingWriter (p : WriteArgs) (throws : ℕ → Bool) : Machine Writing WriteEvent :=
  (inOrderWriter p).restrict (ChunksSucceed p throws)

/-- The arguments of the calls of `write` that the loop has made. -/
def Writing.writeCalls (s : Writing) : List (Option (JSValue × JSValue)) :=
  s.whenWritten.map fun j => (s.sys.writes[j]?).map fun w => (w.socket, w.chunk)

theorem Tracked.writeCalls (h : Tracked p s) : s.writeCalls =
    (p.chunks.take s.chunkIndex).map fun chunk => some (p.socketFd, .bytes chunk) := by
  apply List.ext_getElem?
  intro i
  simp only [Writing.writeCalls, List.getElem?_map, List.getElem?_take]
  by_cases hi : i < s.chunkIndex
  · have hlt : i < s.whenWritten.length := h.issued ▸ hi
    obtain ⟨w, chunk, hw, hc, hfd, hchunk⟩ := h.calls i _ (List.getElem?_eq_getElem hlt)
    simp [List.getElem?_eq_getElem hlt, hw, hi, hc, hfd, hchunk]
  · have hnone : s.whenWritten[i]? = none :=
      List.getElem?_eq_none_iff.mpr (h.issued ▸ not_lt.mp hi)
    simp [hnone, hi]

theorem Tracked.lt_of_promiseOf (h : Tracked p s) {i : ℕ} (hi : s.promiseOf i ≠ .pending) :
    i < p.chunks.length := by
  cases hj : s.whenWritten[i]? with
  | none => simp [Writing.promiseOf, hj] at hi
  | some j =>
    obtain ⟨w, chunk, -, hc, -⟩ := h.calls i j hj
    exact (List.getElem?_eq_some_iff.mp hc).1

theorem succeeding_simulates (h : Consistent s) (hsend : Sending s.sys) (ht : Tracked p s)
    {e : WriteEvent} (he : (succeedingWriter p throws).Enabled s e) :
    (succeedingMachine p throws).Execution (s.loop p) ((s.next p e).loop p) := by
  obtain ⟨hin, hpromises, hown⟩ := he
  have hsend' := sys_sending (sys_execution hin.1) hsend
  have ht' := ht.step hsend hin.1.1
  apply step_simulates h hin.1.1
  · exact fun e' hm => ⟨loop_answersInOrder hin.2 e' hm, hown e' hm⟩
  · exact fun v i hi =>
      ⟨settle_answersInOrder hsend' ht' v i, hpromises i (ht'.lt_of_promiseOf hi) hi⟩

theorem succeeding_refines_loop (h : (succeedingWriter p throws).Execution .initial s) :
    Tracked p s ∧ (succeedingMachine p throws).Execution WriteLoop.initial (s.loop p) := by
  have hall := h.invariant (I := fun s => (Consistent s ∧ Sending s.sys ∧ Tracked p s) ∧
      (succeedingMachine p throws).Execution WriteLoop.initial (s.loop p))
    ⟨⟨initial_consistent, ⟨initial_invariant, initial_written⟩, initial_tracked⟩, .refl _⟩
    fun u e ⟨⟨hc, hs, ht⟩, hrun⟩ he =>
      ⟨⟨hc.step he.1.1.1, sys_sending (sys_execution he.1.1) hs, ht.step hs he.1.1.1⟩,
        hrun.trans (succeeding_simulates hc hs ht he)⟩
  exact ⟨hall.1.2.2, hall.2⟩

def WriteArgs.inMode (p : WriteArgs) (mode : Mode) : WriteArgs := { p with mode := mode }

/-- The loop can go no further. -/
def Ended (p : WriteArgs) (throws : ℕ → Bool) (s : Loop) : Prop :=
  ∀ e, ¬ (succeedingMachine p throws).Enabled s e

/-- Two lists of calls are the same as far as both go, and the same in full at the end. -/
structure SameCalls {α : Type*} (l m : List α) (ended : Prop) : Prop where
  so_far : l <+: m ∨ m <+: l
  at_end : ended → l = m

theorem sameCalls_of_take {α : Type*} {calls : List α} {i j n : ℕ} (hn : calls.length ≤ n)
    {ended : Prop} (hend : ended → i = n ∧ j = n) :
    SameCalls (calls.take i) (calls.take j) ended := by
  constructor
  · exact List.prefix_or_prefix_of_prefix (List.take_prefix _ _) (List.take_prefix _ _)
  · intro h
    obtain ⟨rfl, rfl⟩ := hend h
    rfl

def BothEnded (p : WriteArgs) (throws : ℕ → Bool) (y e : Loop) : Prop :=
  Ended (p.inMode .yieldingLoop) throws y ∧ Ended (p.inMode .explicitScheduling) throws e

/-- Runs of the two loops stand in the same two lists of calls. -/
theorem loops_agree {y e : Loop}
    (hy : (succeedingMachine (p.inMode .yieldingLoop) throws).Execution WriteLoop.initial y)
    (he : (succeedingMachine (p.inMode .explicitScheduling) throws).Execution WriteLoop.initial e) :
    SameCalls (p.chunks.take y.chunkIndex) (p.chunks.take e.chunkIndex)
        (BothEnded p throws y e) ∧
      SameCalls y.onWrites e.onWrites (BothEnded p throws y e) := by
  have iy := execution_inStep hy
  have ie := execution_inStep he
  constructor
  · exact sameCalls_of_take le_rfl fun h => ⟨(iy.complete h.1).1, (ie.complete h.2).1⟩
  · rw [iy.reported, ie.reported]
    exact sameCalls_of_take (InStep.length_reports_le (p := p)) fun h =>
      ⟨(iy.complete h.1).2, (ie.complete h.2).2⟩

theorem SameCalls.map {α β : Type*} {l m : List α} {ended : Prop} (h : SameCalls l m ended)
    (f : α → β) : SameCalls (l.map f) (m.map f) ended :=
  ⟨h.so_far.imp (fun hp => hp.map f) fun hp => hp.map f, fun hend => by rw [h.at_end hend]⟩

/-- The modes call `write` and `onWrite` alike, over any writes that succeed in order and over
an instance whose writes do; both come to an end. The interval is cleared in its tick number
`⌊|chunks| / w⌋ + 1`, which is the last one. -/
theorem modes_isofunctional (p : WriteArgs) (hw : 1 ≤ p.writesPerTick) (throws : ℕ → Bool) :
    (∀ y e, (succeedingMachine (p.inMode .yieldingLoop) throws).Execution WriteLoop.initial y →
      (succeedingMachine (p.inMode .explicitScheduling) throws).Execution WriteLoop.initial e →
      SameCalls y.issued e.issued (BothEnded p throws y e) ∧
      SameCalls y.onWrites e.onWrites (BothEnded p throws y e)) ∧
    (∀ mode es, (succeedingMachine (p.inMode mode) throws).ValidTrace WriteLoop.initial es →
      es.length ≤ 3 * p.chunks.length + 2) ∧
    (∀ y e : Writing, (succeedingWriter (p.inMode .yieldingLoop) throws).Execution .initial y →
      (succeedingWriter (p.inMode .explicitScheduling) throws).Execution .initial e →
      SameCalls y.writeCalls e.writeCalls (BothEnded p throws (y.loop p) (e.loop p)) ∧
      SameCalls y.onWrites e.onWrites (BothEnded p throws (y.loop p) (e.loop p))) ∧
    ∀ es, (writingMachine (p.inMode .explicitScheduling)).ValidTrace .initial es →
      es.countP WriteEvent.isTick ≤ p.chunks.length / p.writesPerTick + 1 ∧
      (((writingMachine (p.inMode .explicitScheduling)).runTrace .initial es).interval = false ↔
        es.countP WriteEvent.isTick = p.chunks.length / p.writesPerTick + 1) := by
  refine ⟨fun y e hy he => ?_, fun mode es h => ?_, fun y e hy he => ?_, fun es h => ?_⟩
  · rw [(execution_inStep hy).issued, (execution_inStep he).issued]
    exact loops_agree hy he
  · exact length_le_of_validTrace (p := p.inMode mode) hw h
  · obtain ⟨ty, ry⟩ := succeeding_refines_loop hy
    obtain ⟨te, re⟩ := succeeding_refines_loop he
    have hagree := loops_agree ry re
    refine ⟨?_, hagree.2⟩
    rw [ty.writeCalls, te.writeCalls]
    exact hagree.1.map fun chunk => some (p.socketFd, JSValue.bytes chunk)
  · have hticked := trace_ticked (p := p.inMode .explicitScheduling) rfl hw h
    exact ⟨hticked.ticks_le, hticked.cleared_iff (p := p.inMode .explicitScheduling) hw⟩

/-- Two chunks are written in one tick, and `onWrite` throws for the first one. With the other
mode the second tick clears the interval. -/
theorem modes_isofunctional_twoChunks :
    let y := (succeedingMachine (twoChunks.inMode .yieldingLoop) (· == 0)).runTrace
      WriteLoop.initial [.tick, .settle 0 (.fulfilled (.number 2)), .thenWritten 0 true,
        .settle 1 (.fulfilled (.number 1)), .thenWritten 1 false, .finish]
    let e := (succeedingMachine (twoChunks.inMode .explicitScheduling) (· == 0)).runTrace
      WriteLoop.initial [.tick, .tick, .settle 0 (.fulfilled (.number 2)),
        .settle 1 (.fulfilled (.number 1)), .thenWritten 0 true, .thenWritten 1 false]
    y.onWrites = [(0, .number 2, 0), (1, .number 1, 0)] ∧
      SameCalls y.issued e.issued (BothEnded twoChunks (· == 0) y e) ∧
      SameCalls y.onWrites e.onWrites (BothEnded twoChunks (· == 0) y e) ∧
      ([WriteEvent.tick, .tick].countP WriteEvent.isTick ≤ 2 / 2 + 1 ∧
        (((writingMachine (twoChunks.inMode .explicitScheduling)).runTrace .initial
          [.tick, .tick]).interval = false ↔
            [WriteEvent.tick, .tick].countP WriteEvent.isTick = 2 / 2 + 1)) := by
  have h := modes_isofunctional twoChunks (by decide) (· == 0)
  intro y e
  have hsame := h.1 y e (Machine.execution_of_trace _ _ _ (by decide))
    (Machine.execution_of_trace _ _ _ (by decide))
  exact ⟨by decide, hsame.1, hsame.2, h.2.2.2 [.tick, .tick] (by decide)⟩

end WriteModes
