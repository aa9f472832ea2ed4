import NodeSrt.AsyncApiQueue
import NodeSrt.AsyncApiWrites
import Mathlib.Data.List.Flatten
import Mathlib.Data.List.Nodup

/-! # The buffers AsyncSRT gives away

`postMessage` moves the `ArrayBuffer`s of the transfer list to the worker, but for those that are
marked untransferable. The caller cannot use them any more, no other call can send them again,
and a second write of one fails. -/
namespace AsyncApi

open AsyncValues
open TransitionSystem

variable {κ : Type*}

/-- The buffers that go with a list of messages, one transfer list after the other. -/
def transferred (posts : List AsyncSRTWorkerPost) : List ArrayBuffer :=
  posts.flatMap fun post => movedBuffers post.args

@[simp] theorem transferred_append (posts : List AsyncSRTWorkerPost) (post : AsyncSRTWorkerPost) :
    transferred (posts ++ [post]) = transferred posts ++ movedBuffers post.args := by
  simp [transferred]

/-- What is detached is what was sent, and each of it was sent once. -/
structure Owned (s : AsyncSRT κ) : Prop where
  nodup : (transferred (s.posted.map Prod.snd)).Nodup
  detached : s.detached = (transferred (s.posted.map Prod.snd)).toFinset

theorem initial_owned : Owned (initial : AsyncSRT κ) := by
  constructor <;> simp [initial, transferred]

namespace Owned

variable {s : AsyncSRT κ}

theorem frame {t : AsyncSRT κ} (h : Owned s) (hp : t.posted = s.posted)
    (hd : t.detached = s.detached) : Owned t :=
  ⟨hp ▸ h.nodup, hp ▸ hd ▸ h.detached⟩

theorem step_accept (h : Owned s) {c : ApiCall} (hc : Accepts s c) (callback : Bool)
    (waiter : κ) : Owned (s.accept c callback waiter) := by
  obtain ⟨_, _, hfresh, hown⟩ := hc.2
  constructor
  · simp only [AsyncSRT.accept, List.map_append, List.map_cons, List.map_nil, transferred_append]
    apply List.Nodup.append h.nodup hown
    intro b hold hnew
    apply (hfresh b (List.mem_of_mem_filter hnew)).2
    rw [h.detached]
    exact List.mem_toFinset.mpr hold
  · simp only [AsyncSRT.accept, List.map_append, List.map_cons, List.map_nil, transferred_append,
      List.toFinset_append, h.detached]

theorem step_call (h : Owned s) (c : ApiCall) (callback : Bool) (waiter : κ) :
    Owned (s.apiCall c callback waiter).1 := by
  rcases call_cases s c with he | ha | ht | ht
  · obtain ⟨n, e⟩ := apiCall_of_early he callback waiter
    exact e ▸ h.frame rfl rfl
  · rw [apiCall_of_accepts ha]
    exact (h.step_accept ha callback waiter).frame rfl rfl
  · rw [apiCall_of_throws ht]
    exact h.frame rfl rfl
  · rw [apiCall_of_untraced ht]
    exact h.frame rfl rfl

theorem step (h : Owned s) (e : Event κ) : Owned (next s e) := by
  cases e with
  | call c callback waiter => exact h.step_call c callback waiter
  | exec o =>
    simp only [next]
    split
    · exact h.frame rfl rfl
    · exact h
  | _ => exact h.frame (next_sameHistory rfl).posted (next_sameHistory rfl).detached

end Owned

/-! ## Writes -/

theorem nextCall_le_next (s : AsyncSRT κ) (e : Event κ) : s.nextCall ≤ (next s e).nextCall := by
  cases e with
  | call c callback waiter =>
    rcases call_cases s c with h | h | h | h
    · obtain ⟨n, e⟩ := apiCall_of_early h callback waiter
      rw [next, e]
      exact le_rfl
    · rw [next, apiCall_of_accepts h]
      exact Nat.le_succ _
    · rw [next, apiCall_of_throws h]
      exact Nat.le_succ _
    · rw [next, apiCall_of_untraced h]
      exact le_rfl
  | exec o => simp only [next]; split <;> exact le_rfl
  | _ => exact (next_sameHistory rfl).nextCall.ge

/-- A write that got as far as `postMessage` was sent, or it was rejected then and there. The
writes are numbered in their order. -/
structure Handed (s : AsyncSRT κ) : Prop where
  numbered : ∀ w ∈ s.writes, ∀ k, w.awaited = .promise k → k < s.nextCall
  ordered : s.writes.Pairwise fun w w' => ∀ k k', w.awaited = .promise k →
    w'.awaited = .promise k' → k < k'
  outcome : ∀ w ∈ s.writes, ∀ k, w.awaited = .promise k →
    (∃ p ∈ s.posted, p.1.call = k ∧ p.2 = ⟨.write, [w.socket, w.chunk]⟩) ∨
      s.promise k = .rejected .dataClone

theorem initial_handed : Handed (initial : AsyncSRT κ) := by
  constructor <;> simp [initial]

namespace Handed

variable {s : AsyncSRT κ}

theorem outcome_next (h : Handed s) (e : Event κ) {w : WriteCall} (hw : w ∈ s.writes) {k : ℕ}
    (hk : w.awaited = .promise k) :
    (∃ p ∈ (next s e).posted, p.1.call = k ∧ p.2 = ⟨.write, [w.socket, w.chunk]⟩) ∨
      (next s e).promise k = .rejected .dataClone := by
  rcases h.outcome w hw k hk with ⟨p, hp, hcall, hpost⟩ | hrej
  · exact Or.inl ⟨p, (step_extends s e).1.posted.subset hp, hcall, hpost⟩
  · exact Or.inr ((step_promise_stable (by simp [hrej])).trans hrej)

theorem step_quiet (h : Handed s) {e : Event κ} (hw : (next s e).writes = s.writes) :
    Handed (next s e) := by
  refine ⟨fun w hmem k hk => ?_, hw ▸ h.ordered, fun w hmem k hk => ?_⟩
  · exact (h.numbered w (hw ▸ hmem) k hk).trans_le (nextCall_le_next s e)
  · exact h.outcome_next e (hw ▸ hmem) hk

theorem step_recorded (h : Handed s) {e : Event κ} {w : WriteCall}
    (hw : (next s e).writes = s.writes ++ [w])
    (hnew : ∀ k, w.awaited = .promise k → k = s.nextCall ∧ k < (next s e).nextCall ∧
      ((∃ p ∈ (next s e).posted, p.1.call = k ∧ p.2 = ⟨.write, [w.socket, w.chunk]⟩) ∨
        (next s e).promise k = .rejected .dataClone)) :
    Handed (next s e) := by
  refine ⟨fun v hmem k hk => ?_, ?_, fun v hmem k hk => ?_⟩
  · rw [hw] at hmem
    rcases List.mem_append.mp hmem with hmem | hmem
    · exact (h.numbered v hmem k hk).trans_le (nextCall_le_next s e)
    · rw [List.mem_singleton.mp hmem] at hk
      exact (hnew k hk).2.1
  · rw [hw]
    refine List.pairwise_append.mpr ⟨h.ordered, List.pairwise_singleton _ _, ?_⟩
    intro v hmem u hu k k' hk hk'
    rw [List.mem_singleton.mp hu] at hk'
    rw [(hnew k' hk').1]
    exact h.numbered v hmem k hk
  · rw [hw] at hmem
    rcases List.mem_append.mp hmem with hmem | hmem
    · exact h.outcome_next e hmem hk
    · rw [List.mem_singleton.mp hmem] at hk ⊢
      exact (hnew k hk).2.2

theorem step_write (h : Handed s) (hqueue : Queued s) (socket chunk : JSValue) (callback : Bool)
    (waiter : κ) : Handed (next s (.call (.write socket chunk) callback waiter)) := by
  rcases call_cases s (.write socket chunk) with hc | hc | hc | hc
  · obtain ⟨n, e⟩ := apiCall_of_early hc callback waiter
    refine h.step_recorded (w := ⟨socket, chunk, n, s.earlyReturn (.write socket chunk)⟩)
      (by rw [next, e]; rfl) fun k hk => absurd hk ?_
    unfold AsyncSRT.earlyReturn
    split
    · simp
    · split_ifs <;> simp
  · refine h.step_recorded (w := ⟨socket, chunk, _, .promise s.nextCall⟩)
      (by rw [next, apiCall_of_accepts hc]; rfl) fun k hk => ?_
    cases hk
    rw [next, apiCall_of_accepts hc]
    exact ⟨rfl, Nat.lt_succ_self _, Or.inl ⟨_, List.mem_append_right _ (List.mem_singleton_self _),
      rfl, rfl⟩⟩
  · refine h.step_recorded (w := ⟨socket, chunk, _, .promise s.nextCall⟩)
      (by rw [next, apiCall_of_throws hc]; rfl) fun k hk => ?_
    cases hk
    rw [next, apiCall_of_throws hc]
    refine ⟨rfl, Nat.lt_succ_self _, Or.inr ?_⟩
    have hpend := (hqueue.fresh s.nextCall le_rfl).1
    simp [AsyncSRT.recordWrite, AsyncSRT.settle, AsyncSRT.prepare, settled_of_pending hpend]
  · exact h.step_recorded (w := ⟨socket, chunk, _, .rejectedPromise .typeError⟩)
      (by rw [next, apiCall_of_untraced hc]; rfl) fun k hk => by cases hk

theorem step (h : Handed s) (hqueue : Queued s) (e : Event κ) : Handed (next s e) := by
  have hquiet := (step_extends s e).2
  cases e with
  | call c callback waiter =>
    cases c with
    | write socket chunk => exact h.step_write hqueue socket chunk callback waiter
    | _ => exact h.step_quiet (hquiet rfl)
  | _ => exact h.step_quiet (hquiet rfl)

end Handed

theorem post_unique (h : Owned s) {p q : OnResult κ × AsyncSRTWorkerPost} (hp : p ∈ s.posted)
    (hq : q ∈ s.posted) {b : ArrayBuffer} (hbp : b ∈ movedBuffers p.2.args)
    (hbq : b ∈ movedBuffers q.2.args) : p = q := by
  have hnodup := h.nodup
  rw [transferred, List.flatMap_map, List.nodup_flatMap] at hnodup
  by_contra hne
  have hsymm : Std.Symm (Function.onFun List.Disjoint fun p : OnResult κ × AsyncSRTWorkerPost =>
      movedBuffers p.2.args) := ⟨fun _ _ hd => hd.symm⟩
  exact hnodup.2.forall hp hq hne hbp hbq

theorem mem_movedBuffers_write {socket chunk : JSValue} {b : ArrayBuffer}
    (h : viewedBuffer chunk = some b) (hb : b.transfer = .moved) :
    b ∈ movedBuffers [socket, chunk] := by
  simp only [movedBuffers, List.mem_filter, hb, decide_true, and_true]
  exact List.mem_filterMap.mpr ⟨chunk, by simp, h⟩

/-- Over a whole run no `ArrayBuffer` is moved to the worker twice, neither in one call nor in
two, and the worker gets none twice. The detached ones are those some sent call has moved. Of two
writes of one such buffer that get as far as `postMessage`, one is rejected with its error. -/
theorem buffers_moved_once {s : AsyncSRT κ} (h : Reachable s) :
    (transferred (s.posted.map Prod.snd)).Nodup ∧ (transferred (s.executed.map Prod.fst)).Nodup ∧
      (∀ b, b ∈ s.detached ↔ ∃ p ∈ s.posted, b ∈ movedBuffers p.2.args) ∧
      s.writes.Pairwise fun w w' => ∀ b k k', viewedBuffer w.chunk = some b →
        viewedBuffer w'.chunk = some b → b.transfer = .moved → w.awaited = .promise k →
        w'.awaited = .promise k' →
        w.promise s = .rejected .dataClone ∨ w'.promise s = .rejected .dataClone := by
  obtain ⟨hown, hport, hqueue, hhanded⟩ := h.invariant
    (I := fun u => Owned u ∧ Ported u ∧ Queued u ∧ Handed u)
    ⟨initial_owned, initial_ported, initial_queued, initial_handed⟩ fun u e hu he =>
    ⟨hu.1.step e, hu.2.1.step e, hu.2.2.1.step he, hu.2.2.2.step hu.2.2.1 e⟩
  refine ⟨hown.nodup, ?_, fun b => ?_, ?_⟩
  · rw [hport.calls]
    exact hown.nodup.sublist ((List.take_sublist _ _).flatMap _)
  · rw [hown.detached, List.mem_toFinset, transferred, List.flatMap_map, List.mem_flatMap]
  · refine hhanded.ordered.imp_of_mem ?_
    intro w w' hw hw' hlt b k k' hb hb' hmoved hk hk'
    rcases hhanded.outcome w hw k hk with ⟨p, hp, hcall, hpost⟩ | hrej
    · rcases hhanded.outcome w' hw' k' hk' with ⟨q, hq, hcall', hpost'⟩ | hrej
      · -- both were sent, so they are one call
        have hsame := post_unique hown hp hq
          (by rw [hpost]; exact mem_movedBuffers_write hb hmoved)
          (by rw [hpost']; exact mem_movedBuffers_write hb' hmoved)
        have := hlt k k' hk hk'
        rw [← hcall, ← hcall', hsame] at this
        exact absurd this (lt_irrefl _)
      · exact Or.inr (by simp [WriteCall.promise, hk', hrej])
    · exact Or.inl (by simp [WriteCall.promise, hk, hrej])

/-- The same chunk written twice, and another one. -/
def chunkRun : List (Event Unit) :=
  [.call (.write (.number 1) (.bytes ⟨true, ⟨0, .moved⟩, [1, 2]⟩)) false (),
    .call (.write (.number 1) (.bytes ⟨true, ⟨0, .moved⟩, [1, 2]⟩)) false (),
    .call (.write (.number 1) (.bytes ⟨false, ⟨4, .moved⟩, [3]⟩)) false (),
    .exec (.ok (.number 2))]

theorem buffers_moved_once_chunkRun :
    let s := (machine Unit).runTrace initial chunkRun
    (transferred (s.posted.map Prod.snd)).Nodup ∧
      transferred (s.posted.map Prod.snd) = [⟨0, .moved⟩, ⟨4, .moved⟩] ∧
      ∃ w ∈ s.writes, w.promise s = .rejected .dataClone := by
  have h := buffers_moved_once ((machine Unit).execution_of_trace initial chunkRun (by decide))
  refine ⟨h.1, by decide, ?_⟩
  rcases List.pairwise_cons.mp h.2.2.2 |>.1 _ (List.mem_cons_self) ⟨0, .moved⟩ 0 1 rfl rfl rfl rfl
    rfl with hrej | hrej
  · exact ⟨_, List.mem_cons_self, hrej⟩
  · exact ⟨_, List.mem_cons_of_mem _ List.mem_cons_self, hrej⟩

end AsyncApi
