import Mathlib.Order.Interval.Finset.Nat
import NodeSrt.WriteLoop
import NodeSrt.WriteModesSent

/-! # Flow control of the yielding loop

The writes of one tick are awaited before the next tick, so at most a tick's worth of them is
unsettled, and a tick that fails is the last one. Every event uses something up; a run that
can go no further has settled its promise. -/
namespace WriteLoop

open AsyncValues
open TransitionSystem
open AsyncApi
open WriteModes

variable (p : WriteArgs)

/-- What is known of the indices and promises in every state of the yielding loop. -/
structure Flowing (s : Loop) : Prop where
  issued : s.issued = p.chunks.take s.chunkIndex
  index_le : s.chunkIndex ≤ p.chunks.length
  window : s.chunkIndex ≤ s.tickStart + p.writesPerTick
  earlier : ∀ i < s.tickStart, isFulfilled (s.promises i) = true
  unissued : ∀ i, s.chunkIndex ≤ i → s.promises i = .pending
  settled : ∀ i ∈ s.handled, s.promises i ≠ .pending
  fulfilled : ∀ v, s.returned = .fulfilled v → p.chunks.length ≤ s.chunkIndex ∧
    v = .undefined ∧ ∀ i < s.chunkIndex, isFulfilled (s.promises i) = true
  rejected : ∀ e, s.returned = .rejected e → ∃ i, s.promises i = .rejected e

theorem initial_flowing : Flowing p initial := by
  constructor <;> simp [initial]

variable {p} {s t : Loop}

theorem thenWritten_frame (p : WriteArgs) (s : Loop) (i : ℕ) (threw : Bool) :
    ((s.thenWritten p i threw).chunkIndex, (s.thenWritten p i threw).tickStart,
      (s.thenWritten p i threw).interval, (s.thenWritten p i threw).issued,
      (s.thenWritten p i threw).promises, (s.thenWritten p i threw).returned) =
    (s.chunkIndex, s.tickStart, s.interval, s.issued, s.promises, s.returned) := by
  unfold Loop.thenWritten
  repeat' split
  all_goals rfl

theorem thenWritten_handled (p : WriteArgs) (s : Loop) {i : ℕ} (threw : Bool)
    (hi : s.promises i ≠ .pending) :
    (s.thenWritten p i threw).handled = s.handled ++ [i] := by
  unfold Loop.thenWritten
  split
  · exact absurd ‹_› hi
  · rfl
  · dsimp only
    split
    · rfl
    · split <;> rfl

namespace Flowing

theorem frame (h : Flowing p s)
    (he : (t.chunkIndex, t.tickStart, t.issued, t.promises, t.returned) =
      (s.chunkIndex, s.tickStart, s.issued, s.promises, s.returned))
    (hsettled : ∀ i ∈ t.handled, s.promises i ≠ .pending) : Flowing p t := by
  cases s
  cases t
  simp only [Prod.mk.injEq] at he
  obtain ⟨rfl, rfl, rfl, rfl, rfl⟩ := he
  exact ⟨h.issued, h.index_le, h.window, h.earlier, h.unissued, hsettled, h.fulfilled, h.rejected⟩

theorem step_thenWritten (h : Flowing p s) {i : ℕ} (hi : s.promises i ≠ .pending)
    (threw : Bool) : Flowing p (s.thenWritten p i threw) := by
  have hf := thenWritten_frame p s i threw
  simp only [Prod.mk.injEq] at hf
  apply h.frame (by simp [hf])
  intro j hj
  rw [thenWritten_handled p s threw hi] at hj
  rcases List.mem_append.mp hj with hj | hj
  · exact h.settled j hj
  · rwa [List.mem_singleton.mp hj]

theorem all_fulfilled (h : Flowing p s) (hw : s.TickWritten) :
    ∀ i < s.chunkIndex, isFulfilled (s.promises i) = true := by
  intro i hi
  by_cases hle : s.tickStart ≤ i
  · exact (hw i hi hle).2
  · exact h.earlier i (not_le.mp hle)

theorem step_tick (h : Flowing p s) (hr : s.returned = .pending) (hw : s.TickWritten) :
    Flowing p (s.tick p) := by
  have hb := tick_eq p s
  have hlen := length_tickChunks p s
  rw [hb]
  constructor
  · dsimp only
    have hcut : s.tickChunks p = (p.chunks.drop s.chunkIndex).take
        (min p.writesPerTick (p.chunks.length - s.chunkIndex)) := by
      rw [Loop.tickChunks, List.take_eq_take_min, List.length_drop]
    rw [hlen, List.take_add, h.issued, hcut]
  · have := h.index_le
    dsimp only
    omega
  · dsimp only
    omega
  · exact h.all_fulfilled hw
  · intro i hi
    dsimp only at hi
    exact h.unissued i (by omega)
  · exact h.settled
  · intro v hv
    simp [hr] at hv
  · intro e he
    simp [hr] at he

/-- A promise that is settled does not settle again. -/
theorem step_settle (h : Flowing p s) {i : ℕ} {st : Settlement} (hi : i < s.chunkIndex)
    (hp : s.promises i = .pending) : Flowing p (s.settle i st) := by
  have hother : ∀ j, s.promises j ≠ .pending → Function.update s.promises i st j = s.promises j :=
    fun j hj => Function.update_of_ne (fun he => hj (by rw [he, hp])) _ _
  have hful : ∀ j, isFulfilled (s.promises j) = true →
      isFulfilled (Function.update s.promises i st j) = true := by
    intro j hj
    rw [hother j fun he => by simp [he, isFulfilled] at hj]
    exact hj
  refine { h with
      earlier := fun j hj => hful j (h.earlier j hj)
      unissued := ?_
      settled := fun j hj => ne_of_eq_of_ne (hother j (h.settled j hj)) (h.settled j hj)
      fulfilled := ?_
      rejected := ?_ }
  · intro j hj
    have hne : j ≠ i := fun he => by subst he; exact absurd hi (not_lt.mpr hj)
    exact (Function.update_of_ne hne _ _).trans (h.unissued j hj)
  · intro v hv
    obtain ⟨hle, hu, hall⟩ := h.fulfilled v hv
    exact ⟨hle, hu, fun j hj => hful j (hall j hj)⟩
  · intro e he
    obtain ⟨j, hj⟩ := h.rejected e he
    exact ⟨j, (hother j (by simp [hj])).trans hj⟩

theorem step (h : Flowing p s) (hmode : p.mode = .yieldingLoop) {e : LoopEvent}
    (he : s.Enabled p e) : Flowing p (s.next p e) := by
  cases e with
  | tick =>
    simp only [Loop.Enabled, hmode] at he
    exact h.step_tick he.1 he.2.2
  | settle i st => exact h.step_settle he.1 he.2.1
  | thenWritten i threw => exact h.step_thenWritten he.1 threw
  | finish =>
    obtain ⟨-, -, hle, hw⟩ := he
    refine { h with fulfilled := fun v hv => ?_, rejected := fun e he => by cases he }
    exact ⟨hle, (Settlement.fulfilled.inj hv).symm, h.all_fulfilled hw⟩
  | fail i =>
    obtain ⟨-, -, -, -, hno⟩ := he
    refine { h with fulfilled := fun v hv => ?_, rejected := fun e he => ⟨i, he⟩ }
    have hv : s.promises i = .fulfilled v := hv
    simp [hv, isFulfilled] at hno

end Flowing

theorem execution_flowing (hmode : p.mode = .yieldingLoop)
    (h : (loopMachine p).Execution initial s) : Flowing p s :=
  h.invariant (initial_flowing p) fun _ _ hu he => hu.step hmode he

/-! ## Failure is final -/

def Failed (s : Loop) : Prop := ∃ i < s.chunkIndex, ∃ e, s.promises i = .rejected e

/-- After a failure nothing is issued any more. -/
theorem step_failed (h : Flowing p s) (hmode : p.mode = .yieldingLoop) (hf : Failed s)
    {e : LoopEvent} (he : s.Enabled p e) :
    Failed (s.next p e) ∧ (s.next p e).issued = s.issued := by
  obtain ⟨i, hi, err, hr⟩ := hf
  cases e with
  | tick =>
    simp only [Loop.Enabled, hmode] at he
    have hall := h.all_fulfilled he.2.2 i hi
    simp [hr, isFulfilled] at hall
  | settle j st =>
    have hne : i ≠ j := fun hij => by
      have hp := he.2.1
      simp [← hij, hr] at hp
    exact ⟨⟨i, hi, err, (Function.update_of_ne hne _ _).trans hr⟩, rfl⟩
  | thenWritten j threw =>
    have hfr := thenWritten_frame p s j threw
    simp only [Prod.mk.injEq] at hfr
    obtain ⟨hc, -, -, hiss, hp, -⟩ := hfr
    exact ⟨⟨i, hc ▸ hi, err, hp ▸ hr⟩, hiss⟩
  | finish | fail j => exact ⟨⟨i, hi, err, hr⟩, rfl⟩

theorem execution_failed (hmode : p.mode = .yieldingLoop) (hs : Flowing p s) (hf : Failed s)
    (h : (loopMachine p).Execution s t) : t.issued = s.issued := by
  have hall := h.invariant (I := fun t => Flowing p t ∧ Failed t ∧ t.issued = s.issued)
    ⟨hs, hf, rfl⟩ fun u e hu he => by
      obtain ⟨hfail, hiss⟩ := step_failed hu.1 hmode hu.2.1 he
      exact ⟨hu.1.step hmode he, hfail, hiss.trans hu.2.2⟩
  exact hall.2.2

/-! ## Progress -/

/-- A loop that can go no further has settled its promise. -/
theorem stuck_returned (hmode : p.mode = .yieldingLoop)
    (hstuck : ∀ e, ¬ s.Enabled p e) :
    (∀ i < s.chunkIndex, s.promises i ≠ .pending) ∧ s.returned ≠ .pending := by
  have hsettled : ∀ i < s.chunkIndex, s.promises i ≠ .pending := fun i hi hp =>
    hstuck (.settle i (.fulfilled .undefined)) ⟨hi, hp, by simp⟩
  refine ⟨hsettled, fun hr => ?_⟩
  have hhandled : ∀ i < s.chunkIndex, i ∈ s.handled := by
    intro i hi
    by_contra hno
    exact hstuck (.thenWritten i false) ⟨hsettled i hi, hno⟩
  have hwritten : s.TickWritten := by
    intro i hi hle
    refine ⟨hhandled i hi, ?_⟩
    by_contra hno
    exact hstuck (.fail i) ⟨hmode, hr, hle, hhandled i hi, by simpa using hno⟩
  by_cases hlt : s.chunkIndex < p.chunks.length
  · exact hstuck .tick (by simpa only [Loop.Enabled, hmode] using ⟨hr, hlt, hwritten⟩)
  · exact hstuck .finish ⟨hmode, hr, not_lt.mp hlt, hwritten⟩

def Loop.unsettled (p : WriteArgs) (s : Loop) : Finset ℕ :=
  (Finset.range p.chunks.length).filter fun i => s.promises i = .pending

def Loop.unhandled (p : WriteArgs) (s : Loop) : Finset ℕ :=
  (Finset.range p.chunks.length).filter fun i => i ∉ s.handled

/-- What a run can still use up: chunks to issue, promises to settle, reactions to run, and
its own promise. -/
def Loop.remaining (p : WriteArgs) (s : Loop) : ℕ :=
  (p.chunks.length - s.chunkIndex) + (s.unsettled p).card + (s.unhandled p).card +
    if s.returned = .pending then 1 else 0

theorem card_filter_lt {n i : ℕ} {P Q : ℕ → Prop} [DecidablePred P] [DecidablePred Q]
    (hsub : ∀ j, Q j → P j) (hi : i < n) (hp : P i) (hq : ¬ Q i) :
    ((Finset.range n).filter Q).card < ((Finset.range n).filter P).card := by
  apply Finset.card_lt_card
  refine ⟨Finset.monotone_filter_right _ fun j _ => hsub j, fun hle => hq ?_⟩
  have hmem := hle (Finset.mem_filter.mpr ⟨Finset.mem_range.mpr hi, hp⟩)
  exact (Finset.mem_filter.mp hmem).2

theorem remaining_settle (hle : s.chunkIndex ≤ p.chunks.length) {i : ℕ} {st : Settlement}
    (hi : i < s.chunkIndex) (hp : s.promises i = .pending) (hst : st ≠ .pending) :
    (s.settle i st).remaining p < s.remaining p := by
  have hlt : ((s.settle i st).unsettled p).card < (s.unsettled p).card := by
    apply card_filter_lt (i := i) _ (hi.trans_le hle) hp
    · simpa [Loop.settle] using hst
    · intro j hj
      by_cases hji : j = i
      · rw [hji, hp]
      · exact (Function.update_of_ne hji _ _).symm.trans hj
  have hsame : (s.settle i st).unhandled p = s.unhandled p := rfl
  simp only [Loop.remaining, hsame]
  change _ - s.chunkIndex + _ + _ + (if s.returned = .pending then 1 else 0) < _
  omega

theorem remaining_thenWritten {i : ℕ} (hin : i < p.chunks.length) (hi : s.promises i ≠ .pending)
    (hno : i ∉ s.handled) (threw : Bool) :
    (s.thenWritten p i threw).remaining p < s.remaining p := by
  have hhandled := thenWritten_handled p s threw hi
  have hlt : ((s.thenWritten p i threw).unhandled p).card < (s.unhandled p).card := by
    apply card_filter_lt (i := i) _ hin hno
    · simp [hhandled]
    · intro j hj hmem
      exact hj (hhandled ▸ List.mem_append_left _ hmem)
  have hfr := thenWritten_frame p s i threw
  simp only [Prod.mk.injEq] at hfr
  have hsame : (s.thenWritten p i threw).unsettled p = s.unsettled p := by
    simp only [Loop.unsettled, hfr]
  simp only [Loop.remaining, hsame, hfr]
  omega

theorem remaining_tick :
    (s.tick p).remaining p + (s.tickChunks p).length ≤ s.remaining p := by
  have hb := tick_eq p s
  have hlen := length_tickChunks p s
  have hsame : (s.tick p).unsettled p = s.unsettled p ∧ (s.tick p).unhandled p = s.unhandled p ∧
      (s.tick p).returned = s.returned := by
    rw [hb]
    exact ⟨rfl, rfl, rfl⟩
  have hindex : (s.tick p).chunkIndex = s.chunkIndex + (s.tickChunks p).length := by rw [hb]
  simp only [Loop.remaining, hsame, hindex]
  omega

theorem remaining_returned (hr : s.returned = .pending) {st : Settlement} (hst : st ≠ .pending) :
    Loop.remaining p { s with returned := st } < s.remaining p := by
  change _ + _ + _ + (if st = .pending then 1 else 0) < _ + _ + _ + _
  rw [if_pos hr, if_neg hst]
  exact Nat.lt_succ_self _

theorem step_remaining (h : Flowing p s) (hmode : p.mode = .yieldingLoop)
    (hw : 1 ≤ p.writesPerTick) {e : LoopEvent} (he : s.Enabled p e) :
    (s.next p e).remaining p < s.remaining p := by
  cases e with
  | tick =>
    simp only [Loop.Enabled, hmode] at he
    have hlen := length_tickChunks p s
    have hrest := remaining_tick (p := p) (s := s)
    simp only [Loop.next]
    omega
  | settle i st => exact remaining_settle h.index_le he.1 he.2.1 he.2.2
  | thenWritten i threw =>
    have hin : i < s.chunkIndex := by
      by_contra hge
      exact he.1 (h.unissued i (not_lt.mp hge))
    exact remaining_thenWritten (hin.trans_le h.index_le) he.1 he.2 threw
  | finish => exact remaining_returned he.2.1 (by simp)
  | fail i => exact remaining_returned he.2.1 (h.settled i he.2.2.2.1)

theorem initial_remaining (p : WriteArgs) : initial.remaining p = 3 * p.chunks.length + 1 := by
  simp [Loop.remaining, Loop.unsettled, Loop.unhandled, initial]
  omega

/-! ## The loop as a whole -/

/-- What the flow control of the loop promises of a state. -/
structure FlowControlled (p : WriteArgs) (s : Loop) : Prop where
  in_order : s.issued <+: p.chunks
  window : ((Finset.range s.issued.length).filter fun i => s.promises i = .pending).card ≤
    p.writesPerTick
  ticks_wait : s.Enabled p .tick → ∀ i < s.issued.length, isFulfilled (s.promises i) = true
  fulfils : ∀ v, s.returned = .fulfilled v →
    s.issued = p.chunks ∧ ∀ i < s.issued.length, isFulfilled (s.promises i) = true
  failure_is_final : ∀ i < s.issued.length, ∀ e, s.promises i = .rejected e →
    ∀ t, (loopMachine p).Execution s t → t.issued = s.issued
  ends : (∀ e, ¬ s.Enabled p e) →
    ((∀ i < s.issued.length, isFulfilled (s.promises i) = true) →
      s.issued = p.chunks ∧ s.returned = .fulfilled .undefined) ∧
    ∀ i < s.issued.length, isFulfilled (s.promises i) = false → ∃ e, s.returned = .rejected e

namespace Flowing

theorem length_issued (h : Flowing p s) : s.issued.length = s.chunkIndex := by
  rw [h.issued, List.length_take, min_eq_left h.index_le]

theorem window_le (h : Flowing p s) :
    ((Finset.range s.chunkIndex).filter fun i => s.promises i = .pending).card ≤
      p.writesPerTick := by
  have hsub : ((Finset.range s.chunkIndex).filter fun i => s.promises i = .pending) ⊆
      Finset.Ico s.tickStart s.chunkIndex := by
    intro i hi
    obtain ⟨hlt, hp⟩ := Finset.mem_filter.mp hi
    refine Finset.mem_Ico.mpr ⟨?_, Finset.mem_range.mp hlt⟩
    by_contra hge
    have hful := h.earlier i (not_le.mp hge)
    simp [hp, isFulfilled] at hful
  have hwindow := h.window
  calc _ ≤ (Finset.Ico s.tickStart s.chunkIndex).card := Finset.card_le_card hsub
    _ = s.chunkIndex - s.tickStart := Nat.card_Ico _ _
    _ ≤ p.writesPerTick := by omega

theorem issued_all (h : Flowing p s) (hle : p.chunks.length ≤ s.chunkIndex) :
    s.issued = p.chunks := by
  rw [h.issued, List.take_of_length_le hle]

theorem ends (h : Flowing p s) (hmode : p.mode = .yieldingLoop)
    (hstuck : ∀ e, ¬ s.Enabled p e) :
    ((∀ i < s.chunkIndex, isFulfilled (s.promises i) = true) →
      s.issued = p.chunks ∧ s.returned = .fulfilled .undefined) ∧
    ∀ i < s.chunkIndex, isFulfilled (s.promises i) = false → ∃ e, s.returned = .rejected e := by
  obtain ⟨-, hr⟩ := stuck_returned hmode hstuck
  cases hret : s.returned with
  | pending => exact absurd hret hr
  | fulfilled v =>
    obtain ⟨hle, rfl, hall⟩ := h.fulfilled v hret
    exact ⟨fun _ => ⟨h.issued_all hle, rfl⟩, fun i hi hno => by simp [hall i hi] at hno⟩
  | rejected e =>
    refine ⟨fun hall => ?_, fun _ _ _ => ⟨e, rfl⟩⟩
    obtain ⟨i, hi⟩ := h.rejected e hret
    have hlt : i < s.chunkIndex := by
      by_contra hge
      simp [h.unissued i (not_lt.mp hge)] at hi
    have hful := hall i hlt
    simp [hi, isFulfilled] at hful

theorem flowControlled (h : Flowing p s) (hmode : p.mode = .yieldingLoop) :
    FlowControlled p s := by
  have hlen := h.length_issued
  constructor
  · rw [h.issued]
    exact List.take_prefix _ _
  · rw [hlen]
    exact h.window_le
  · intro he
    simp only [Loop.Enabled, hmode] at he
    rw [hlen]
    exact h.all_fulfilled he.2.2
  · intro v hv
    obtain ⟨hle, -, hall⟩ := h.fulfilled v hv
    exact ⟨h.issued_all hle, by rwa [hlen]⟩
  · intro i hi e he t ht
    exact execution_failed hmode h ⟨i, hlen ▸ hi, e, he⟩ ht
  · rw [hlen]
    exact h.ends hmode

end Flowing

/-- The yielding loop with at least one write a tick: every state it reaches is flow
controlled, and however its writes settle it comes to an end. -/
theorem yieldingLoop_flow (p : WriteArgs) (hmode : p.mode = .yieldingLoop)
    (hw : 1 ≤ p.writesPerTick) :
    (∀ s, (loopMachine p).Execution initial s → FlowControlled p s) ∧
    ∀ es, (loopMachine p).ValidTrace initial es → es.length ≤ 3 * p.chunks.length + 1 := by
  constructor
  · intro s h
    exact (execution_flowing hmode h).flowControlled hmode
  · intro es h
    rw [← initial_remaining p]
    exact Machine.length_le_of_decreasing (I := Flowing p)
      (fun u e hu he => ⟨hu.step hmode he, step_remaining hu hmode hw he⟩) (initial_flowing p) h

theorem yieldingLoop_flow_twoChunks :
    FlowControlled twoChunks ((loopMachine twoChunks).runTrace initial
      [.tick, .settle 1 (.fulfilled (.number 1)), .settle 0 (.rejected .writeFailed)]) :=
  (yieldingLoop_flow twoChunks rfl (by decide)).1 _
    ((loopMachine twoChunks).execution_of_trace _ _ (by decide))

end WriteLoop
