import Mathlib.Data.List.Perm.Basic
import NodeSrt.WriteLoop
import NodeSrt.WriteModesSent

/-! # What the write loops report

The index given to `onWrite` counts the reactions that came to their end before. With the
writes answered in order these are the chunks before the reported one whose write succeeded
and whose `onWrite` did not throw, so the index is right when those are all of them. -/
namespace WriteLoop

open AsyncValues
open TransitionSystem
open AsyncApi
open WriteModes

variable (p : WriteArgs)

/-- A write that succeeds gives the length of its chunk, and when its reaction runs those of
all chunks before it have run. -/
def AnswersInOrder (s : Loop) : LoopEvent → Prop
  | .settle i st => ∀ chunk ∈ p.chunks[i]?, isFulfilled st = true →
      st = .fulfilled (.number chunk.data.length)
  | .thenWritten i _ => isFulfilled (s.promises i) = true → ∀ j < i, j ∈ s.handled
  | _ => True

instance (s : Loop) : (e : LoopEvent) → Decidable (AnswersInOrder p s e)
  | .settle i st =>
    match h : p.chunks[i]? with
    | none => isTrue (by simp [AnswersInOrder, h])
    | some chunk => decidable_of_iff
        (isFulfilled st = true → st = .fulfilled (.number chunk.data.length))
        (by simp [AnswersInOrder, h])
  | .thenWritten _ _ => inferInstanceAs (Decidable (_ → ∀ j < _, j ∈ _))
  | .tick | .finish | .fail _ => isTrue trivial

def inOrderMachine : Machine Loop LoopEvent := (loopMachine p).restrict (AnswersInOrder p)

instance (s : Loop) (e : LoopEvent) : Decidable ((inOrderMachine p).Enabled s e) :=
  inferInstanceAs (Decidable (s.Enabled p e ∧ AnswersInOrder p s e))

def Loop.succeeded (s : Loop) (i : ℕ) : Bool := isFulfilled (s.promises i) && i ∉ s.threw

structure Reporting (s : Loop) : Prop where
  index_le : s.chunkIndex ≤ p.chunks.length
  sizes : ∀ i, isFulfilled (s.promises i) = true → ∃ chunk, p.chunks[i]? = some chunk ∧
    s.promises i = .fulfilled (.number chunk.data.length)
  distinct : s.handled.Nodup
  settled : ∀ i ∈ s.handled, s.promises i ≠ .pending
  threw : ∀ i ∈ s.threw, i ∈ s.handled
  ordered : ∀ i ∈ s.handled, isFulfilled (s.promises i) = true → ∀ j < i, j ∈ s.handled
  counted : s.chunkWrittenIdx = (s.handled.filter s.succeeded).length
  reported : ∀ x ∈ s.onWrites, x.1 ∈ s.handled ∧ s.promises x.1 = .fulfilled x.2.1 ∧
    x.2.2 = ((List.range x.1).filter s.succeeded).length
  once : p.onWrite = true →
    s.onWrites.map Prod.fst = s.handled.filter fun i => isFulfilled (s.promises i)

theorem initial_reporting : Reporting p initial := by
  constructor <;> simp [initial, isFulfilled]

variable {p} {s t : Loop}

namespace Reporting

theorem counted_before (h : Reporting p s) {i : ℕ} (hno : i ∉ s.handled)
    (hbefore : ∀ j < i, j ∈ s.handled) :
    s.chunkWrittenIdx = ((List.range i).filter s.succeeded).length := by
  rw [h.counted]
  apply List.Perm.length_eq
  rw [List.perm_ext_iff_of_nodup (h.distinct.filter _) (List.nodup_range.filter _)]
  intro k
  simp only [List.mem_filter, List.mem_range]
  constructor
  · rintro ⟨hk, hs⟩
    refine ⟨?_, hs⟩
    by_contra hge
    have hful : isFulfilled (s.promises k) = true := by
      simp only [Loop.succeeded, Bool.and_eq_true] at hs
      exact hs.1
    rcases (not_lt.mp hge).eq_or_lt with rfl | hlt
    · exact hno hk
    · exact hno (h.ordered k hk hful i hlt)
  · rintro ⟨hk, hs⟩
    exact ⟨hbefore k hk, hs⟩

/-- The reports made so far stand as long as no reaction that has run is touched. -/
theorem reported_stable (h : Reporting p s)
    (hsame : ∀ j ∈ s.handled, t.promises j = s.promises j ∧ (j ∈ t.threw ↔ j ∈ s.threw))
    (hsub : ∀ j ∈ s.handled, j ∈ t.handled) :
    ∀ x ∈ s.onWrites, x.1 ∈ t.handled ∧ t.promises x.1 = .fulfilled x.2.1 ∧
      x.2.2 = ((List.range x.1).filter t.succeeded).length := by
  intro x hx
  obtain ⟨hmem, hp, hidx⟩ := h.reported x hx
  refine ⟨hsub _ hmem, (hsame _ hmem).1.trans hp, hidx.trans ?_⟩
  congr 1
  apply List.filter_congr
  intro j hj
  have hj := h.ordered x.1 hmem (by simp [hp, isFulfilled]) j (List.mem_range.mp hj)
  simp [Loop.succeeded, hsame j hj]

theorem frame (h : Reporting p s) (hle : t.chunkIndex ≤ p.chunks.length)
    (he : (t.promises, t.handled, t.threw, t.chunkWrittenIdx, t.onWrites) =
      (s.promises, s.handled, s.threw, s.chunkWrittenIdx, s.onWrites)) : Reporting p t := by
  cases s
  cases t
  simp only [Prod.mk.injEq] at he
  obtain ⟨rfl, rfl, rfl, rfl, rfl⟩ := he
  exact ⟨hle, h.sizes, h.distinct, h.settled, h.threw, h.ordered, h.counted, h.reported, h.once⟩

theorem step_settle (h : Reporting p s) {i : ℕ} {st : Settlement} (hi : i < s.chunkIndex)
    (hp : s.promises i = .pending) (hst : AnswersInOrder p s (.settle i st)) :
    Reporting p (s.settle i st) := by
  have hne : ∀ j ∈ s.handled, j ≠ i := fun j hj he => h.settled j hj (he ▸ hp)
  have hsame : ∀ j ∈ s.handled, (s.settle i st).promises j = s.promises j ∧
      (j ∈ (s.settle i st).threw ↔ j ∈ s.threw) := fun j hj =>
    ⟨Function.update_of_ne (hne j hj) _ _, Iff.rfl⟩
  have hsucc : ∀ j ∈ s.handled, (s.settle i st).succeeded j = s.succeeded j := fun j hj => by
    simp [Loop.succeeded, hsame j hj]
  refine ⟨h.index_le, ?_, h.distinct, ?_, h.threw, ?_, ?_, h.reported_stable hsame fun _ => id, ?_⟩
  · intro j hj
    by_cases hji : j = i
    · subst hji
      have hlt := hi.trans_le h.index_le
      have hst' : (s.settle j st).promises j = st := Function.update_self _ _ _
      rw [hst'] at hj ⊢
      exact ⟨_, List.getElem?_eq_getElem hlt, hst _ (List.getElem?_eq_getElem hlt) hj⟩
    · have hold : (s.settle i st).promises j = s.promises j := Function.update_of_ne hji _ _
      rw [hold] at hj ⊢
      exact h.sizes j hj
  · intro j hj
    exact ne_of_eq_of_ne (hsame j hj).1 (h.settled j hj)
  · intro j hj hful
    exact h.ordered j hj ((hsame j hj).1 ▸ hful)
  · show s.chunkWrittenIdx = (s.handled.filter (s.settle i st).succeeded).length
    rw [List.filter_congr hsucc]
    exact h.counted
  · intro hon
    show _ = s.handled.filter fun j => isFulfilled ((s.settle i st).promises j)
    rw [List.filter_congr fun j hj => by rw [(hsame j hj).1]]
    exact h.once hon

theorem step_react (h : Reporting p s) {i : ℕ} (hi : s.promises i ≠ .pending)
    (hno : i ∉ s.handled)
    (hbefore : isFulfilled (s.promises i) = true → ∀ j < i, j ∈ s.handled)
    (ht : (t.chunkIndex, t.promises, t.handled) = (s.chunkIndex, s.promises, s.handled ++ [i]))
    (hthrew : t.threw = s.threw ∨ t.threw = s.threw ++ [i])
    (hcount : t.chunkWrittenIdx = s.chunkWrittenIdx + if t.succeeded i then 1 else 0)
    {l : List (ℕ × ReturnValue × ℕ)} (hwrites : t.onWrites = s.onWrites ++ l)
    (hl : ∀ x ∈ l, x.1 = i ∧ s.promises i = .fulfilled x.2.1 ∧ x.2.2 = s.chunkWrittenIdx)
    (hon : p.onWrite = true →
      l.map Prod.fst = if isFulfilled (s.promises i) = true then [i] else []) :
    Reporting p t := by
  simp only [Prod.mk.injEq] at ht
  obtain ⟨hidx, hp, hh⟩ := ht
  have hmem : ∀ j, j ∈ t.handled ↔ j ∈ s.handled ∨ j = i := by simp [hh]
  have hne : ∀ j ∈ s.handled, j ≠ i := fun j hj he => hno (he ▸ hj)
  have hsame : ∀ j ∈ s.handled, t.promises j = s.promises j ∧ (j ∈ t.threw ↔ j ∈ s.threw) := by
    intro j hj
    rcases hthrew with e | e <;> simp [hp, e, hne j hj]
  have hsucc : ∀ j ∈ s.handled, t.succeeded j = s.succeeded j := fun j hj => by
    simp [Loop.succeeded, hsame j hj]
  constructor
  · exact hidx ▸ h.index_le
  · exact hp ▸ h.sizes
  · rw [hh]
    exact List.nodup_append.mpr ⟨h.distinct, List.nodup_singleton _, fun a ha b hb hab =>
      hne a ha (hab.trans (List.mem_singleton.mp hb))⟩
  · intro j hj
    rw [hp]
    rcases (hmem j).mp hj with hj | rfl
    · exact h.settled j hj
    · exact hi
  · intro j hj
    rw [hmem]
    rcases hthrew with e | e
    · exact Or.inl (h.threw j (e ▸ hj))
    · rw [e] at hj
      exact (List.mem_append.mp hj).imp (h.threw j) List.mem_singleton.mp
  · intro j hj hful k hk
    rw [hp] at hful
    rw [hmem]
    rcases (hmem j).mp hj with hj | rfl
    · exact Or.inl (h.ordered j hj hful k hk)
    · exact Or.inl (hbefore hful k hk)
  · rw [hcount, hh, List.filter_append, List.filter_congr hsucc, List.length_append, h.counted]
    cases hs : t.succeeded i <;> simp [hs]
  · intro x hx
    rw [hwrites] at hx
    rcases List.mem_append.mp hx with hx | hx
    · exact h.reported_stable hsame (fun j hj => (hmem j).mpr (Or.inl hj)) x hx
    · obtain ⟨hxi, hxp, hxc⟩ := hl x hx
      have hful : isFulfilled (s.promises i) = true := by simp [hxp, isFulfilled]
      have hcounted := h.counted_before hno (hbefore hful)
      refine ⟨(hmem _).mpr (Or.inr hxi), by rw [hp, hxi, hxp], ?_⟩
      rw [hxc, hxi, hcounted]
      congr 1
      exact List.filter_congr fun j hj =>
        (hsucc j (hbefore hful j (List.mem_range.mp hj))).symm
  · intro honW
    rw [hwrites, List.map_append, h.once honW, hon honW, hh, List.filter_append, hp]
    cases hf : isFulfilled (s.promises i) <;> simp [hf]

theorem step_thenWritten (h : Reporting p s) {i : ℕ} (hi : s.promises i ≠ .pending)
    (hno : i ∉ s.handled) (hbefore : isFulfilled (s.promises i) = true → ∀ j < i, j ∈ s.handled)
    (threw : Bool) : Reporting p (s.thenWritten p i threw) := by
  have hnot : i ∉ s.threw := fun hmem => hno (h.threw i hmem)
  cases hp : s.promises i with
  | pending => exact absurd hp hi
  | rejected e =>
    apply h.step_react hi hno hbefore (l := [])
    · simp [Loop.thenWritten, hp]
    · simp [Loop.thenWritten, hp]
    · simp [Loop.thenWritten, hp, Loop.succeeded, isFulfilled]
    · simp [Loop.thenWritten, hp]
    · simp
    · simp [hp, isFulfilled]
  | fulfilled v =>
    obtain ⟨chunk, -, hv⟩ := h.sizes i (by simp [hp, isFulfilled])
    have hne : v ≠ .number SRT_ERROR := by
      rw [hp] at hv
      cases hv
      simp only [SRT_ERROR, ne_eq, ReturnValue.number.injEq]
      omega
    apply h.step_react hi hno hbefore
      (l := if p.onWrite = true then [(i, v, s.chunkWrittenIdx)] else [])
    all_goals
      simp only [Loop.thenWritten, hp, if_neg hne]
    · split <;> rfl
    · split <;> simp
    · split <;> simp [Loop.succeeded, hp, isFulfilled, hnot]
    · split <;> split <;> simp_all
    · intro x hx
      split at hx
      · rw [List.mem_singleton.mp hx]
        exact ⟨rfl, rfl, rfl⟩
      · cases hx
    · intro hon
      simp [hon, isFulfilled]

theorem step (h : Reporting p s) {e : LoopEvent} (he : (inOrderMachine p).Enabled s e) :
    Reporting p (s.next p e) := by
  obtain ⟨he, ho⟩ := he
  cases e with
  | tick =>
    have hb := tick_eq p s
    have hlen := length_tickChunks p s
    have hle := h.index_le
    apply h.frame
    · simp only [Loop.next, hb]
      omega
    · simp only [Loop.next, hb]
  | settle i st => exact h.step_settle he.1 he.2.1 ho
  | thenWritten i threw => exact h.step_thenWritten he.1 he.2 ho threw
  | finish | fail i => exact h.frame h.index_le rfl

end Reporting

theorem execution_reporting (h : (inOrderMachine p).Execution initial s) : Reporting p s :=
  h.invariant (initial_reporting p) fun _ _ hu he => hu.step he

/-! ## Right reports -/

/-- Each call of `onWrite` is about the chunk at the index it is given, whose write succeeded,
with its length, and there is one call for each write that succeeded. -/
structure ReportsRight (p : WriteArgs) (s : Loop) : Prop where
  concerned : ∀ x ∈ s.onWrites, x.1 = x.2.2 ∧ ∃ chunk, p.chunks[x.2.2]? = some chunk ∧
    s.promises x.2.2 = .fulfilled x.2.1 ∧ x.2.1 = .number chunk.data.length
  once : p.onWrite = true → ∀ i ∈ s.handled, isFulfilled (s.promises i) = true →
    s.onWrites.countP (fun x => x.1 = i) = 1

def NoneMissedBefore (s : Loop) : Prop := ∀ x ∈ s.onWrites, ∀ j < x.1, s.succeeded j = true

namespace Reporting

theorem index_eq_iff (h : Reporting p s) {x : ℕ × ReturnValue × ℕ} (hx : x ∈ s.onWrites) :
    x.1 = x.2.2 ↔ ∀ j < x.1, s.succeeded j = true := by
  have hiff := List.length_filter_eq_length_iff (p := s.succeeded) (l := List.range x.1)
  simp only [List.length_range, List.mem_range] at hiff
  rw [(h.reported x hx).2.2, eq_comm]
  exact hiff

/-- The size and the chunk of a report are right whatever index it gives. -/
theorem reported_chunk (h : Reporting p s) {x : ℕ × ReturnValue × ℕ} (hx : x ∈ s.onWrites) :
    ∃ chunk, p.chunks[x.1]? = some chunk ∧ s.promises x.1 = .fulfilled x.2.1 ∧
      x.2.1 = .number chunk.data.length := by
  obtain ⟨-, hp, -⟩ := h.reported x hx
  obtain ⟨chunk, hc, hlen⟩ := h.sizes x.1 (by simp [hp, isFulfilled])
  refine ⟨chunk, hc, hp, ?_⟩
  rw [hp] at hlen
  exact Settlement.fulfilled.inj hlen

theorem reported_once (h : Reporting p s) (hon : p.onWrite = true) {i : ℕ}
    (hi : i ∈ s.handled) (hful : isFulfilled (s.promises i) = true) :
    s.onWrites.countP (fun x => x.1 = i) = 1 := by
  have hcount : (s.onWrites.map Prod.fst).count i = 1 := by
    rw [h.once hon]
    exact List.count_eq_one_of_mem (h.distinct.filter _) (List.mem_filter.mpr ⟨hi, hful⟩)
  rw [← hcount, List.count, List.countP_map]
  exact List.countP_congr fun x _ => by simp

theorem reportsRight_iff (h : Reporting p s) : ReportsRight p s ↔ NoneMissedBefore s := by
  constructor
  · intro hr x hx
    exact (h.index_eq_iff hx).mp (hr.concerned x hx).1
  · intro hn
    refine ⟨fun x hx => ?_, fun hon i hi => h.reported_once hon hi⟩
    have hidx := (h.index_eq_iff hx).mpr (hn x hx)
    refine ⟨hidx, ?_⟩
    rw [← hidx]
    exact h.reported_chunk hx

end Reporting

end WriteLoop
