import NodeSrt.AsyncApiDisposal
import Mathlib.Data.List.Nodup

/-! # The callback queue of AsyncSRT in every run

A `postMessage` that throws leaves its callback in the queue. From then on the callbacks
are more than the messages, and a reply may be given to a callback it is not for. The calls
that are in the queue before this happens still get their own replies. -/
namespace AsyncApi

open AsyncValues
open TransitionSystem
open OrderedPort

variable {κ : Type*}

/-- The queued callbacks whose calls have not timed out. -/
def AsyncSRT.awaited (s : AsyncSRT κ) : ℕ :=
  s.workCbQueue.countP fun cb => !s.rejected cb.call

/-- The counter counts the callbacks that are waiting, whether or not their messages were
sent, and the calls that could not be traced; the phases of `dispose` follow it. -/
structure Queued (s : AsyncSRT κ) : Prop where
  started : s.startedToDispose = false ↔ s.disposing = .notCalled
  held : s.worker = true ↔
    s.disposing = .notCalled ∨ s.disposing = .waiting ∨ s.disposing = .resuming
  fresh : ∀ k, s.nextCall ≤ k →
    s.promise k = .pending ∧ s.timeout k = none ∧ s.rejected k = false
  ids : ∀ cb ∈ s.workCbQueue, cb.call < s.nextCall
  nodup : (s.workCbQueue.map OnResult.call).Nodup
  armed : s.worker = true → ∀ k t, s.timeout k = some t → s.rejected k = false ∧
    ∃ cb ∈ s.workCbQueue, cb.call = k ∧ cb.useTimeout = true
  counter : s.worker = true →
    s.lockLevel = s.awaited + runningShare s.running + s.untraced.length
  resuming : s.disposing = .resuming → s.lockLevel ≤ 0

theorem countP_update {rejected : ℕ → Bool} {l : List (OnResult κ)}
    (hn : (l.map OnResult.call).Nodup) {cb : OnResult κ} (hcb : cb ∈ l)
    (hr : rejected cb.call = false) :
    l.countP (fun b => !rejected b.call) =
      l.countP (fun b => !Function.update rejected cb.call true b.call) + 1 := by
  induction l with
  | nil => simp at hcb
  | cons a l ih =>
    rw [List.map_cons, List.nodup_cons] at hn
    simp only [List.countP_cons]
    rcases List.mem_cons.mp hcb with rfl | hcb
    · have hrest : l.countP (fun b => !rejected b.call) =
          l.countP (fun b => !Function.update rejected cb.call true b.call) := by
        refine List.countP_congr fun b hb => ?_
        have hne : b.call ≠ cb.call := fun e => hn.1 (e ▸ List.mem_map_of_mem hb)
        simp [hne]
      simp [hrest, hr]
    · have hne : a.call ≠ cb.call := fun e => hn.1 (e ▸ List.mem_map_of_mem hcb)
      rw [ih hn.2 hcb]
      simp only [Function.update_of_ne hne]
      omega

theorem initial_queued : Queued (initial : AsyncSRT κ) := by
  constructor <;> simp [initial, AsyncSRT.awaited, runningShare]

theorem deliver_other {s : AsyncSRT κ} (hw : s.worker = true) {cb : OnResult κ}
    {ks : List (OnResult κ)} (hq : s.workCbQueue = cb :: ks) (data : AsyncSRTWorkerMessage)
    {k : ℕ} (hne : k ≠ cb.call) :
    (s.deliver data).promise k = s.promise k ∧ (s.deliver data).timeout k = s.timeout k ∧
      (s.deliver data).rejected k = s.rejected k := by
  rw [deliver_of_queue hw hq, onResult_eq]
  refine ⟨?_, ?_, rfl⟩
  · dsimp only
    split
    · rfl
    · exact settled_of_ne hne _
  · dsimp only
    split
    · exact Function.update_of_ne hne _ _
    · rfl

namespace Queued

variable {s : AsyncSRT κ}

theorem frame {t : AsyncSRT κ} (h : Queued s)
    (he : (t.startedToDispose, t.disposing, t.worker, t.nextCall, t.promise, t.timeout,
        t.rejected, t.workCbQueue, t.lockLevel, t.running, t.untraced) =
      (s.startedToDispose, s.disposing, s.worker, s.nextCall, s.promise, s.timeout,
        s.rejected, s.workCbQueue, s.lockLevel, s.running, s.untraced)) : Queued t := by
  cases s
  cases t
  simp only [Prod.mk.injEq] at he
  obtain ⟨rfl, rfl, rfl, rfl, rfl, rfl, rfl, rfl, rfl, rfl, rfl⟩ := he
  exact ⟨h.started, h.held, h.fresh, h.ids, h.nodup, h.armed, h.counter, h.resuming⟩

theorem step_prepare (h : Queued s) {c : ApiCall} (hc : ReachesPost s c) (callback : Bool)
    (waiter : κ) : Queued (s.prepare c callback waiter) := by
  obtain ⟨_, hw, hd, _⟩ := hc
  have hnot := h.started.mp hd
  have hnew : s.rejected s.nextCall = false := (h.fresh s.nextCall le_rfl).2.2
  exact {
    started := h.started
    held := h.held
    fresh := by
      intro k hk
      simp only [AsyncSRT.prepare] at hk ⊢
      obtain ⟨h₁, h₂, h₃⟩ := h.fresh k (by omega)
      have hne : k ≠ s.nextCall := by omega
      refine ⟨h₁, ?_, h₃⟩
      split
      · simpa [hne] using h₂
      · exact h₂
    ids := by
      intro cb hcb
      simp only [AsyncSRT.prepare] at hcb ⊢
      rcases List.mem_append.mp hcb with hcb | hcb
      · exact Nat.lt_succ_of_lt (h.ids cb hcb)
      · rw [List.mem_singleton.mp hcb]
        exact Nat.lt_succ_self _
    nodup := by
      simp only [AsyncSRT.prepare, List.map_append, List.map_cons, List.map_nil]
      refine List.nodup_append.mpr ⟨h.nodup, List.nodup_singleton _, ?_⟩
      intro k hk j hj he
      obtain ⟨cb, hcb, rfl⟩ := List.mem_map.mp hk
      have := h.ids cb hcb
      have := List.mem_singleton.mp hj
      omega
    armed := by
      intro _ k t ht
      simp only [AsyncSRT.prepare] at ht ⊢
      by_cases hk : k = s.nextCall
      · subst hk
        cases hu : c.useTimeout with
        | false => simp [hu, (h.fresh s.nextCall le_rfl).2.1] at ht
        | true => exact ⟨hnew, _, List.mem_append_right _ List.mem_cons_self, rfl, rfl⟩
      · have ht' : s.timeout k = some t := by
          split at ht
          · simpa [hk] using ht
          · exact ht
        obtain ⟨hr, cb, hcb, hcall⟩ := h.armed hw k t ht'
        exact ⟨hr, cb, List.mem_append_left _ hcb, hcall⟩
    counter := by
      intro _
      have := h.counter hw
      simp only [AsyncSRT.awaited] at this
      simp only [AsyncSRT.awaited, AsyncSRT.prepare, List.countP_append, List.countP_cons,
        List.countP_nil, hnew]
      push_cast
      simp only [Bool.not_false, if_true]
      omega
    resuming := by
      intro he
      simp [AsyncSRT.prepare, hnot] at he }

theorem step_lose (h : Queued s) {c : ApiCall} (hc : ReachesPost s c) : Queued (s.lose c) := by
  obtain ⟨_, hw, hd, _⟩ := hc
  have hnot := h.started.mp hd
  refine { h with counter := fun _ => ?_, resuming := fun he => ?_ }
  · have := h.counter hw
    have hsame : (s.lose c).awaited = s.awaited := rfl
    rw [hsame]
    simp only [AsyncSRT.lose, List.length_append, List.length_singleton]
    omega
  · simp [AsyncSRT.lose, hnot] at he

theorem step_call (h : Queued s) (c : ApiCall) (callback : Bool) (waiter : κ) :
    Queued (s.apiCall c callback waiter).1 := by
  rcases call_cases s c with he | ha | ht | ht
  · obtain ⟨n, e⟩ := apiCall_of_early he callback waiter
    exact e ▸ h.frame rfl
  · rw [apiCall_of_accepts ha]
    exact (h.step_prepare ha.1 callback waiter).frame rfl
  · rw [apiCall_of_throws ht]
    have hp := h.step_prepare ht.1 callback waiter
    refine { hp with fresh := fun k hk => ?_ }
    obtain ⟨h₁, h₂, h₃⟩ := hp.fresh k hk
    have hne : k ≠ s.nextCall := by
      simp only [AsyncSRT.recordWrite, AsyncSRT.settle, AsyncSRT.prepare] at hk
      omega
    exact ⟨(settled_of_ne hne _).trans h₁, h₂, h₃⟩
  · rw [apiCall_of_untraced ht]
    exact (h.step_lose ht.1).frame rfl

theorem deliver_timeout (h : Queued s) (hw : s.worker = true) {cb : OnResult κ}
    {ks : List (OnResult κ)} (hq : s.workCbQueue = cb :: ks) (data : AsyncSRTWorkerMessage)
    {k : ℕ} {t : Timer} (ht : (s.deliver data).timeout k = some t) :
    s.timeout k = some t ∧ k ≠ cb.call := by
  by_cases hk : k = cb.call
  · subst hk
    rw [deliver_of_queue hw hq, onResult_eq] at ht
    dsimp only at ht
    split at ht
    · simp at ht
    · rename_i hclear
      refine absurd ?_ hclear
      obtain ⟨hr, b, hb, hcall, hu⟩ := h.armed hw cb.call t ht
      have hnodup := h.nodup
      rw [hq] at hb hnodup
      rcases List.mem_cons.mp hb with rfl | hb
      · exact ⟨hr, hu⟩
      · exact absurd (List.mem_map_of_mem hb) (hcall ▸ (List.nodup_cons.mp hnodup).1)
  · exact ⟨(deliver_other hw hq data hk).2.1 ▸ ht, hk⟩

/-- The oldest callback takes a reply, which need not be the reply to its call. -/
theorem step_deliver (h : Queued s) (data : AsyncSRTWorkerMessage) (hrun : s.running = none) :
    Queued (s.deliver data) := by
  cases hw : s.worker with
  | false =>
    rw [deliver_of_disposed hw]
    exact h.frame rfl
  | true =>
    cases hq : s.workCbQueue with
    | nil =>
      apply h.frame
      simp [AsyncSRT.deliver, AsyncSRT.onWorkerMessage, AsyncSRT.isDisposed, hw, hq]
    | cons cb ks =>
      have hnodup := h.nodup
      rw [hq, List.map_cons, List.nodup_cons] at hnodup
      have hlt : cb.call < s.nextCall := h.ids cb (hq ▸ List.mem_cons_self)
      have hfresh : ∀ k, s.nextCall ≤ k → (s.deliver data).promise k = .pending ∧
          (s.deliver data).timeout k = none ∧ (s.deliver data).rejected k = false := by
        intro k hk
        obtain ⟨h₁, h₂, h₃⟩ := deliver_other hw hq data (k := k) (by omega)
        rw [h₁, h₂, h₃]
        exact h.fresh k hk
      have harmed : ∀ k t, (s.deliver data).timeout k = some t →
          s.rejected k = false ∧ ∃ b ∈ ks, b.call = k ∧ b.useTimeout = true := by
        intro k t ht
        obtain ⟨ht, hne⟩ := h.deliver_timeout hw hq data ht
        obtain ⟨hr, b, hb, hcall, hu⟩ := h.armed hw k t ht
        rw [hq] at hb
        rcases List.mem_cons.mp hb with rfl | hb
        · exact absurd hcall.symm hne
        · exact ⟨hr, b, hb, hcall, hu⟩
      have hcount := h.counter hw
      simp only [AsyncSRT.awaited, hq, hrun, List.countP_cons, runningShare] at hcount
      rw [deliver_of_queue hw hq, onResult_eq] at hfresh harmed ⊢
      exact {
        started := h.started
        held := h.held
        fresh := hfresh
        ids := fun b hb => h.ids b (hq ▸ List.mem_cons_of_mem _ hb)
        nodup := hnodup.2
        armed := fun _ => harmed
        counter := fun _ => by
          dsimp only [AsyncSRT.awaited]
          cases hr : s.rejected cb.call <;> cases hc : cb.callback <;>
            simp [hr, hrun, runningShare] at hcount ⊢ <;> omega
        resuming := fun hres => by
          have := h.resuming hres
          dsimp only
          split <;> omega }

theorem step_timer (h : Queued s) {k : ℕ} {t : Timer} (ht : s.timeout k = some t)
    (hrun : s.running = none) : Queued (s.onTimeout k t) := by
  have hlt : k < s.nextCall := by
    by_contra hk
    simp [(h.fresh k (by omega)).2.1] at ht
  refine ⟨h.started, h.held, fun j hj => ?_, h.ids, h.nodup, fun hw j t' hj => ?_,
    fun hw => ?_, fun hres => ?_⟩
  · obtain ⟨h₁, h₂, h₃⟩ := h.fresh j hj
    have hne : j ≠ k := fun e => by simp only [AsyncSRT.onTimeout, AsyncSRT.settle] at hj; omega
    exact ⟨(settled_of_ne hne _).trans h₁,
      by simpa [AsyncSRT.onTimeout, AsyncSRT.settle, hne] using h₂,
      by simpa [AsyncSRT.onTimeout, AsyncSRT.settle, hne] using h₃⟩
  · by_cases hne : j = k
    · simp [AsyncSRT.onTimeout, AsyncSRT.settle, hne] at hj
    · obtain ⟨hr, cb, hcb⟩ := h.armed hw j t'
        (by simpa [AsyncSRT.onTimeout, AsyncSRT.settle, hne] using hj)
      exact ⟨by simpa [AsyncSRT.onTimeout, AsyncSRT.settle, hne] using hr, cb, hcb⟩
  · have hcount := h.counter hw
    obtain ⟨hr, cb, hcb, hcall, _⟩ := h.armed hw k t ht
    have hdrop := countP_update h.nodup hcb (hcall ▸ hr)
    rw [hcall] at hdrop
    simp only [AsyncSRT.awaited, hrun, runningShare] at hcount
    simp only [AsyncSRT.awaited, AsyncSRT.onTimeout, AsyncSRT.settle, hrun, runningShare]
    omega
  · have := h.resuming hres
    simp only [AsyncSRT.onTimeout, AsyncSRT.settle]
    omega

theorem step_callbackReturn (h : Queued s) {cb : OnResult κ} {late : Bool}
    (hrun : s.running = some (cb, late)) :
    Queued ({ s with running := none }.finishOnResult late) := by
  refine { h with counter := fun hw => ?_, resuming := fun hres => ?_ }
  · have hcount := h.counter hw
    rw [hrun] at hcount
    cases late <;>
      simp [AsyncSRT.finishOnResult, AsyncSRT.awaited, runningShare] at hcount ⊢ <;> omega
  · have := h.resuming hres
    simp only [AsyncSRT.finishOnResult]
    split <;> omega

theorem step_terminate (h : Queued s) (hw : s.worker = true) (hd : s.startedToDispose = true) :
    Queued s.terminateWorker := by
  rw [terminateWorker_eq hw]
  exact ⟨by simp [hd], by simp, h.fresh, by simp, by simp, by simp, by simp, by simp⟩

theorem step_dispose (h : Queued s) : Queued s.dispose := by
  rcases dispose_cases s with ⟨_, e⟩ | ⟨hd, hl, e⟩ | ⟨hd, hl, e⟩
  · exact e.symm ▸ h
  · have hw := h.held.mpr (Or.inl (h.started.mp hd))
    rw [e]
    exact { h with
        started := by simp
        held := by simp [hw]
        resuming := fun hres => by cases hres }
  · have hw := h.held.mpr (Or.inl (h.started.mp hd))
    rw [e, terminateWorker_eq (s := { s with startedToDispose := true }) hw]
    exact ⟨by simp, by simp, h.fresh, by simp, by simp, by simp, by simp, by simp⟩

theorem step (h : Queued s) {e : Event κ} (he : Enabled s e) : Queued (next s e) := by
  cases e with
  | call c callback waiter => exact h.step_call c callback waiter
  | dispose => exact h.step_dispose
  | exec o =>
    simp only [next]
    split
    · exact h.frame rfl
    · exact h
  | deliver =>
    simp only [next]
    split
    · exact h.step_deliver _ he.2
    · exact h
  | callbackReturn threw =>
    cases hr : s.running with
    | none => simpa [next, hr] using h
    | some r => simpa [next, hr] using h.step_callbackReturn hr
  | timer k =>
    cases ht : s.timeout k with
    | none => simpa [next, ht] using h
    | some t => simpa [next, ht] using h.step_timer ht he.2
  | pollDispose =>
    simp only [next]
    split
    · have hw := h.held.mpr (Or.inr (Or.inl he.1))
      have hd := h.started
      rw [he.1] at hd
      exact { h with
          started := by simpa using hd
          held := by simp [hw]
          resuming := fun _ => by assumption }
    · exact h
  | resumeDispose =>
    have hd := h.started
    rw [he.1] at hd
    exact h.step_terminate (h.held.mpr (Or.inr (Or.inr he.1))) (by simpa using hd)
  | exited code =>
    have hd := h.started
    have hw := h.held
    rw [he.1] at hd hw
    exact { h with
        started := by simpa [next] using hd
        held := by simpa [next] using hw
        resuming := fun hres => by cases hres }

end Queued

/-! ## Callbacks without a message -/

/-- There are more callbacks than messages: some `postMessage` has thrown. -/
def Orphaned (s : AsyncSRT κ) : Prop := s.unanswered < s.workCbQueue.length

instance (s : AsyncSRT κ) : Decidable (Orphaned s) := inferInstanceAs (Decidable (_ < _))

variable {s t : AsyncSRT κ}

theorem unanswered_of_worker (h : s.worker = true) :
    s.unanswered = s.toWorker.length + s.toMain.length := if_pos h

theorem worker_of_next {e : Event κ} (h : (next s e).worker = true) : s.worker = true := by
  cases hw : s.worker with
  | true => rfl
  | false =>
    exfalso
    cases e with
    | call c callback waiter =>
      have hno : ¬ ReachesPost s c := fun hc => by
        have := hc.2.1
        simp [hw] at this
      obtain ⟨n, e⟩ := apiCall_of_early hno callback waiter
      simp [next, e, AsyncSRT.recordWrite, hw] at h
    | dispose =>
      rcases dispose_cases s with ⟨_, e⟩ | ⟨_, _, e⟩ | ⟨_, _, e⟩
      · simp [next, e, hw] at h
      · simp [next, e, hw] at h
      · simp [next, e, AsyncSRT.terminateWorker, hw] at h
    | exec o => simp only [next] at h; split at h <;> simp [AsyncSRT.exec, hw] at h
    | deliver =>
      simp only [next] at h
      split at h <;> simp [deliver_of_disposed hw, hw] at h
    | callbackReturn threw =>
      simp only [next] at h
      split at h <;> simp [AsyncSRT.finishOnResult, hw] at h
    | timer k =>
      simp only [next] at h
      split at h <;> simp [AsyncSRT.onTimeout, AsyncSRT.settle, hw] at h
    | pollDispose => simp only [next] at h; split at h <;> simp [hw] at h
    | resumeDispose => simp [next, AsyncSRT.terminateWorker, hw] at h
    | exited code => simp [next, hw] at h

/-- A step that keeps the worker takes no more callbacks than messages. -/
theorem Orphaned.step (h : Orphaned s) (hw : s.worker = true) {e : Event κ}
    (ht : (next s e).worker = true) : Orphaned (next s e) := by
  rw [Orphaned, unanswered_of_worker hw] at h
  rw [Orphaned, unanswered_of_worker ht]
  cases e with
  | call c callback waiter =>
    rcases call_cases s c with he | ha | hp | hp
    · obtain ⟨n, e⟩ := apiCall_of_early he callback waiter
      simpa only [next, e, AsyncSRT.recordWrite] using h
    · simp only [next, apiCall_of_accepts ha, AsyncSRT.recordWrite, AsyncSRT.accept,
        AsyncSRT.prepare, List.length_append, List.length_singleton]
      omega
    · simp only [next, apiCall_of_throws hp, AsyncSRT.recordWrite, AsyncSRT.settle,
        AsyncSRT.prepare, List.length_append, List.length_singleton]
      omega
    · simpa only [next, apiCall_of_untraced hp, AsyncSRT.recordWrite, AsyncSRT.lose] using h
  | dispose =>
    rcases dispose_cases s with ⟨_, e⟩ | ⟨_, _, e⟩ | ⟨_, _, e⟩
    · simpa only [next, e] using h
    · simpa only [next, e] using h
    · rw [next, e, terminateWorker_eq (s := { s with startedToDispose := true }) hw] at ht
      cases ht
  | exec o =>
    cases hq : s.toWorker with
    | nil => simpa [next, hq] using h
    | cons data rest =>
      simp only [hq, List.length_cons] at h
      simp only [next, hq, AsyncSRT.exec, List.tail_cons, List.length_append,
        List.length_singleton]
      omega
  | deliver =>
    cases hm : s.toMain with
    | nil => simpa [next, hm] using h
    | cons data rest =>
      cases hq : s.workCbQueue with
      | nil => simp [hq] at h
      | cons cb ks =>
        simp only [hm, hq, List.length_cons] at h
        simp only [next, hm, deliver_of_queue hw hq, onResult_eq, List.tail_cons]
        omega
  | callbackReturn threw => simp only [next]; split <;> exact h
  | timer k => simp only [next]; split <;> exact h
  | pollDispose => simp only [next]; split <;> exact h
  | resumeDispose =>
    simp only [next, terminateWorker_eq hw] at ht
    cases ht
  | exited code => exact h

theorem reachable_cases (h : Reachable s) :
    Queued s ∧ Ported s ∧ (Invariant s ∨ (s.worker = true → Orphaned s)) := by
  refine h.invariant (I := fun s => Queued s ∧ Ported s ∧
    (Invariant s ∨ (s.worker = true → Orphaned s)))
    ⟨initial_queued, initial_ported, Or.inl initial_invariant⟩ fun u e hu he => ?_
  obtain ⟨hqueue, hport, hcase⟩ := hu
  refine ⟨hqueue.step he, hport.step e, ?_⟩
  rcases hcase with hinv | horph
  · by_cases hp : Posts u e
    · exact Or.inl (step_preserves_invariant hinv ⟨he, hp⟩)
    · -- the call that throws is the first to leave a callback without a message
      right
      cases e with
      | call c callback waiter =>
        have hthrows : PostThrows u c := not_not.mp hp
        intro hw
        have hmatch := queue_matches_port hinv.correlated
        have hheld : u.worker = true := hthrows.1.2.1
        rw [unanswered_of_worker hheld] at hmatch
        rw [Orphaned, unanswered_of_worker hw]
        simp only [machine, next, apiCall_of_throws hthrows, AsyncSRT.recordWrite,
          AsyncSRT.settle, AsyncSRT.prepare, List.length_append, List.length_singleton]
        omega
      | dispose | exec o | deliver | callbackReturn threw | timer k | pollDispose
      | resumeDispose | exited code => exact absurd trivial hp
  · right
    intro hw
    have hheld := worker_of_next hw
    exact (horph hheld).step hheld hw

/-! ## A run in which all replies come in -/

theorem exists_all_executed (hd : s.disposing ≠ .finished) :
    ∃ t, (machine κ).Execution s t ∧ t.toWorker = [] ∧
      t.toMain.length = s.toWorker.length + s.toMain.length ∧
      (t.posted, t.answered, t.workCbQueue, t.promise) =
        (s.posted, s.answered, s.workCbQueue, s.promise) ∧ t.worker = s.worker := by
  induction hq : s.toWorker generalizing s with
  | nil => exact ⟨s, .refl s, hq, by simp, rfl, rfl⟩
  | cons data rest ih =>
    have he : (machine κ).Enabled s (.exec (.ok .undefined)) := ⟨by simp [hq], hd⟩
    have hnext : (machine κ).next s (.exec (.ok .undefined)) = s.exec data (.ok .undefined) := by
      simp [machine, next, hq]
    obtain ⟨t, hrun, hempty, hlen, hsame, hw⟩ :=
      ih (s := s.exec data (.ok .undefined)) hd (by simp [AsyncSRT.exec, hq])
    refine ⟨t, .trans (.step he) (hnext ▸ hrun), hempty, ?_, hsame, hw⟩
    rw [hlen]
    simp only [AsyncSRT.exec, List.length_append, List.length_cons, List.length_nil]
    omega

theorem exists_idle (s : AsyncSRT κ) :
    ∃ t, (machine κ).Execution s t ∧ t.running = none ∧
      (t.posted, t.answered, t.workCbQueue, t.promise, t.toMain, t.worker) =
        (s.posted, s.answered, s.workCbQueue, s.promise, s.toMain, s.worker) := by
  cases hr : s.running with
  | none => exact ⟨s, .refl s, hr, rfl⟩
  | some r =>
    refine ⟨_, .step (e := .callbackReturn false) (by simp [machine, Enabled, hr]), ?_, ?_⟩ <;>
      simp [machine, next, hr, AsyncSRT.finishOnResult]

theorem exists_all_delivered (h : Queued s) (hw : s.worker = true)
    (hlen : s.toMain.length ≤ s.workCbQueue.length) :
    ∃ t, (machine κ).Execution s t ∧ t.posted = s.posted ∧
      t.answered = s.answered + s.toMain.length ∧
      t.workCbQueue = s.workCbQueue.drop s.toMain.length ∧
      ∀ cb ∈ t.workCbQueue, t.promise cb.call = s.promise cb.call := by
  induction hm : s.toMain generalizing s with
  | nil => exact ⟨s, .refl s, rfl, by simp, by simp, fun _ _ => rfl⟩
  | cons data rest ih =>
    obtain ⟨i, hidle, hrun, hsame⟩ := exists_idle s
    simp only [Prod.mk.injEq] at hsame
    obtain ⟨hposted, hans, hqueue, hprom, hmain, hworker⟩ := hsame
    have hi : Queued i := hidle.invariant h fun _ _ hu he => hu.step he
    have he : (machine κ).Enabled i .deliver := ⟨by simp [hmain, hm], hrun⟩
    rw [hm] at hlen
    obtain ⟨cb, ks, hq⟩ : ∃ cb ks, s.workCbQueue = cb :: ks :=
      List.exists_cons_of_ne_nil fun e => by simp [e] at hlen
    have hnext : (machine κ).next i .deliver = i.deliver data := by
      simp [machine, next, hmain, hm]
    have hdeliver := deliver_of_queue (s := i) (hworker.trans hw) (hqueue.trans hq) data
    rw [onResult_eq] at hdeliver
    obtain ⟨t, hrest, hp, ha, hk, hpr⟩ := ih (s := i.deliver data)
      (hnext ▸ hi.step (e := .deliver) he) (by simp [hdeliver, hworker, hw])
      (by simpa [hdeliver, hmain, hm, hq] using hlen) (by simp [hdeliver, hmain, hm])
    refine ⟨t, hidle.trans (.trans (.step he) (hnext ▸ hrest)), ?_, ?_, ?_, fun b hb => ?_⟩
    · simp [hp, hdeliver, hposted]
    · simp only [ha, hdeliver, hans, List.length_cons]
      omega
    · simp [hk, hdeliver, hq]
    · have hmem : b ∈ ks := by
        rw [hk, hdeliver] at hb
        exact List.mem_of_mem_drop hb
      have hne : b.call ≠ cb.call := by
        have hnodup := h.nodup
        rw [hq, List.map_cons, List.nodup_cons] at hnodup
        exact fun e => hnodup.1 (e ▸ List.mem_map_of_mem hmem)
      have hother := deliver_other (s := i) (hworker.trans hw) (hqueue.trans hq) data hne
      rw [hpr b hb, hother.1, hprom]

/-- All replies come in. A callback that is left has no message, or one behind it in the
queue has none. -/
theorem exists_drained (h : Queued s) (hw : s.worker = true)
    (hlen : s.unanswered ≤ s.workCbQueue.length) :
    ∃ t, (machine κ).Execution s t ∧ t.posted = s.posted ∧
      t.answered = s.answered + s.unanswered ∧
      t.workCbQueue = s.workCbQueue.drop s.unanswered ∧
      ∀ cb ∈ t.workCbQueue, t.promise cb.call = s.promise cb.call := by
  have hd : s.disposing ≠ .finished := by
    rcases h.held.mp hw with hd | hd | hd <;> simp [hd]
  obtain ⟨u, hexec, _, hmain, hsame, hworker⟩ := exists_all_executed hd
  simp only [Prod.mk.injEq] at hsame
  obtain ⟨hposted, hans, hqueue, hprom⟩ := hsame
  have hu : Queued u := hexec.invariant h fun _ _ hu he => hu.step he
  rw [unanswered_of_worker hw] at hlen ⊢
  obtain ⟨t, hrun, hp, ha, hk, hpr⟩ :=
    exists_all_delivered hu (hworker.trans hw) (by rwa [hmain, hqueue])
  refine ⟨t, hexec.trans hrun, hp.trans hposted, by rw [ha, hans, hmain], by rw [hk, hqueue, hmain],
    fun cb hcb => by rw [hpr cb hcb, hprom]⟩

end AsyncApi
