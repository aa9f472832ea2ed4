import NodeSrt.AsyncApiQueue
import NodeSrt.Progress

/-! # The end of disposal in AsyncSRT

`dispose` polls the outstanding-call counter without a limit. Whether the wait comes to an end
is decided when it starts: a callback that no reply is left for keeps the counter up, unless a
timeout of its call takes it down, and a call that could not be traced keeps it up for good. -/
namespace AsyncApi

open AsyncValues
open TransitionSystem

variable {κ : Type*}

/-! ## Timers of the queued calls -/

/-- A queued call that asked for a timeout has its timer armed or has timed out. Nothing is
armed or counted once the worker is gone. -/
structure Watched (s : AsyncSRT κ) : Prop where
  timed : s.worker = true → ∀ cb ∈ s.workCbQueue, cb.useTimeout = true →
    s.timeout cb.call ≠ none ∨ s.rejected cb.call = true
  untimed : ∀ cb ∈ s.workCbQueue, cb.useTimeout = false → s.rejected cb.call = false
  level : s.worker = false →
    s.lockLevel = 0 ∧ runningShare s.running = 0 ∧ s.untraced = []
  disarmed : s.worker = false → ∀ k, s.timeout k = none

theorem initial_watched : Watched (initial : AsyncSRT κ) := by
  constructor <;> simp [initial]

theorem Queued.callback_unique {s : AsyncSRT κ} (h : Queued s) {a b : OnResult κ}
    (ha : a ∈ s.workCbQueue) (hb : b ∈ s.workCbQueue) (hcall : a.call = b.call) : a = b :=
  List.inj_on_of_nodup_map h.nodup ha hb hcall

theorem Queued.disarmed {s : AsyncSRT κ} (h : Queued s) (hw : s.worker = true)
    (hl : s.lockLevel ≤ 0) :
    (s.lockLevel = 0 ∧ runningShare s.running = 0 ∧ s.untraced = []) ∧
      ∀ k, s.timeout k = none := by
  have hcount := h.counter hw
  have hnone : s.awaited = 0 := by omega
  refine ⟨⟨by omega, by omega, List.length_eq_zero_iff.mp (by omega)⟩, fun k => ?_⟩
  cases ht : s.timeout k with
  | none => rfl
  | some t =>
    obtain ⟨hr, cb, hcb, hcall, _⟩ := h.armed hw k t ht
    rw [AsyncSRT.awaited, List.countP_eq_zero] at hnone
    exact absurd (hcall ▸ hr) (by simpa using hnone cb hcb)

namespace Watched

variable {s : AsyncSRT κ}

theorem frame {t : AsyncSRT κ} (h : Watched s)
    (he : (t.worker, t.workCbQueue, t.timeout, t.rejected, t.lockLevel, t.running, t.untraced) =
      (s.worker, s.workCbQueue, s.timeout, s.rejected, s.lockLevel, s.running, s.untraced)) :
    Watched t := by
  cases s
  cases t
  simp only [Prod.mk.injEq] at he
  obtain ⟨rfl, rfl, rfl, rfl, rfl, rfl, rfl⟩ := he
  exact ⟨h.timed, h.untimed, h.level, h.disarmed⟩

theorem step_prepare (h : Watched s) (hqueue : Queued s) {c : ApiCall} (hc : ReachesPost s c)
    (callback : Bool) (waiter : κ) : Watched (s.prepare c callback waiter) := by
  obtain ⟨_, hw, _⟩ := hc
  exact {
    timed := by
      intro _ cb hcb hu
      simp only [AsyncSRT.prepare, List.mem_append, List.mem_singleton] at hcb ⊢
      rcases hcb with hcb | rfl
      · have hne : cb.call ≠ s.nextCall := (hqueue.ids cb hcb).ne
        have hold := h.timed hw cb hcb hu
        split
        · rwa [Function.update_of_ne hne]
        · exact hold
      · left
        simp only [if_pos hu, Function.update_self]
        exact Option.some_ne_none _
    untimed := by
      intro cb hcb hu
      simp only [AsyncSRT.prepare, List.mem_append, List.mem_singleton] at hcb ⊢
      rcases hcb with hcb | rfl
      · exact h.untimed cb hcb hu
      · exact (hqueue.fresh s.nextCall le_rfl).2.2
    level := fun hg => absurd hg (by simp [AsyncSRT.prepare, hw])
    disarmed := fun hg => absurd hg (by simp [AsyncSRT.prepare, hw]) }

theorem step_lose (h : Watched s) {c : ApiCall} (hw : s.worker = true) : Watched (s.lose c) :=
  { h with level := fun hg => absurd hg (by simp [AsyncSRT.lose, hw]) }

theorem step_call (h : Watched s) (hqueue : Queued s) (c : ApiCall) (callback : Bool)
    (waiter : κ) : Watched (s.apiCall c callback waiter).1 := by
  rcases call_cases s c with he | ha | ht | ht
  · obtain ⟨n, e⟩ := apiCall_of_early he callback waiter
    exact e ▸ h.frame rfl
  · rw [apiCall_of_accepts ha]
    exact (h.step_prepare hqueue ha.1 callback waiter).frame rfl
  · rw [apiCall_of_throws ht]
    exact (h.step_prepare hqueue ht.1 callback waiter).frame rfl
  · rw [apiCall_of_untraced ht]
    exact (h.step_lose ht.1.2.1).frame rfl

theorem step_deliver (h : Watched s) (hqueue : Queued s) (data : AsyncSRTWorkerMessage) :
    Watched (s.deliver data) := by
  cases hw : s.worker with
  | false =>
    rw [deliver_of_disposed hw]
    exact h.frame rfl
  | true =>
    cases hq : s.workCbQueue with
    | nil =>
      apply h.frame
      simp [AsyncSRT.deliver, AsyncSRT.onWorkerMessage, AsyncSRT.isDisposed, hw, hq]
    | cons cb ks =>
      have hother : ∀ b ∈ ks, (s.deliver data).timeout b.call = s.timeout b.call ∧
          (s.deliver data).rejected b.call = s.rejected b.call := by
        intro b hb
        have hnodup := hqueue.nodup
        rw [hq, List.map_cons, List.nodup_cons] at hnodup
        have hne : b.call ≠ cb.call := fun e => hnodup.1 (e ▸ List.mem_map_of_mem hb)
        exact (deliver_other hw hq data hne).2
      have hheld : (s.deliver data).worker = true := by
        have hf := deliver_frame s data
        simp only [Prod.mk.injEq] at hf
        exact hf.2.1.trans hw
      have hrest : (s.deliver data).workCbQueue = ks := by
        rw [deliver_of_queue hw hq, onResult_eq]
      refine ⟨fun _ b hb hu => ?_, fun b hb hu => ?_, fun hg => ?_, fun hg => ?_⟩
      · rw [hrest] at hb
        rw [(hother b hb).1, (hother b hb).2]
        exact h.timed hw b (hq ▸ List.mem_cons_of_mem _ hb) hu
      · rw [hrest] at hb
        rw [(hother b hb).2]
        exact h.untimed b (hq ▸ List.mem_cons_of_mem _ hb) hu
      · simp [hheld] at hg
      · simp [hheld] at hg

theorem step_timer (h : Watched s) (hqueue : Queued s) {k : ℕ} {t : Timer}
    (ht : s.timeout k = some t) : Watched (s.onTimeout k t) := by
  have hw : s.worker = true := by
    by_contra hw
    simp [h.disarmed (by simpa using hw) k] at ht
  obtain ⟨_, own, hown, hcall, hu⟩ := hqueue.armed hw k t ht
  refine ⟨fun _ cb hcb hcu => ?_, fun cb hcb hcu => ?_, fun hg => ?_, fun hg => ?_⟩
  · by_cases hk : cb.call = k
    · right
      simp [AsyncSRT.onTimeout, AsyncSRT.settle, hk]
    · simpa [AsyncSRT.onTimeout, AsyncSRT.settle, hk] using h.timed hw cb hcb hcu
  · -- the call that timed out is no other than the one that asked for it
    have hk : cb.call ≠ k := by
      intro hk
      obtain rfl := hqueue.callback_unique hcb hown (hk.trans hcall.symm)
      simp [hu] at hcu
    simpa [AsyncSRT.onTimeout, AsyncSRT.settle, hk] using h.untimed cb hcb hcu
  · simp [AsyncSRT.onTimeout, AsyncSRT.settle, hw] at hg
  · simp [AsyncSRT.onTimeout, AsyncSRT.settle, hw] at hg

theorem step_callbackReturn (h : Watched s) {cb : OnResult κ} {late : Bool}
    (hrun : s.running = some (cb, late)) :
    Watched ({ s with running := none }.finishOnResult late) := by
  refine ⟨h.timed, h.untimed, fun hg => ?_, h.disarmed⟩
  obtain ⟨hlevel, hshare, huntraced⟩ := h.level hg
  rw [hrun] at hshare
  -- the callback that returns was a late one
  cases late with
  | true => exact ⟨hlevel, rfl, huntraced⟩
  | false => cases hshare

theorem step_terminate (hqueue : Queued s) (hw : s.worker = true) (hl : s.lockLevel ≤ 0) :
    Watched s.terminateWorker := by
  obtain ⟨hlevel, htimers⟩ := hqueue.disarmed hw hl
  rw [terminateWorker_eq hw]
  exact ⟨by simp, by simp, fun _ => hlevel, fun _ => htimers⟩

theorem step_dispose (h : Watched s) (hqueue : Queued s) : Watched s.dispose := by
  rcases dispose_cases s with ⟨_, e⟩ | ⟨_, _, e⟩ | ⟨hd, hl, e⟩
  · exact e.symm ▸ h
  · exact e.symm ▸ h.frame rfl
  · have hw := hqueue.held.mpr (Or.inl (hqueue.started.mp hd))
    obtain ⟨hlevel, htimers⟩ := hqueue.disarmed hw hl
    rw [e, terminateWorker_eq (s := { s with startedToDispose := true }) hw]
    exact ⟨by simp, by simp, fun _ => hlevel, fun _ => htimers⟩

theorem step (h : Watched s) (hqueue : Queued s) {e : Event κ} (he : Enabled s e) :
    Watched (next s e) := by
  cases e with
  | call c callback waiter => exact h.step_call hqueue c callback waiter
  | dispose => exact h.step_dispose hqueue
  | exec o =>
    simp only [next]
    split
    · exact h.frame rfl
    · exact h
  | deliver =>
    simp only [next]
    split
    · exact h.step_deliver hqueue _
    · exact h
  | callbackReturn threw =>
    cases hr : s.running with
    | none => simpa [next, hr] using h
    | some r => simpa [next, hr] using h.step_callbackReturn hr
  | timer k =>
    cases ht : s.timeout k with
    | none => simpa [next, ht] using h
    | some t => simpa [next, ht] using h.step_timer hqueue ht
  | pollDispose =>
    simp only [next]
    split
    · exact h.frame rfl
    · exact h
  | resumeDispose =>
    have hw := hqueue.held.mpr (Or.inr (Or.inr he.1))
    exact step_terminate hqueue hw (hqueue.resuming he.1)
  | exited code => exact h.frame rfl

end Watched

/-! ## What is left to do -/

/-- The steps that bring disposal closer to its end. A poll does if it ends the wait. -/
def Progresses (s : AsyncSRT κ) : Event κ → Prop
  | .exec _ | .deliver | .callbackReturn _ | .timer _ | .resumeDispose | .exited _ => True
  | .pollDispose => s.lockLevel ≤ 0
  | .call _ _ _ | .dispose => False

instance (s : AsyncSRT κ) : (e : Event κ) → Decidable (Progresses s e)
  | .exec _ | .deliver | .callbackReturn _ | .timer _ | .resumeDispose | .exited _ => isTrue trivial
  | .pollDispose => inferInstanceAs (Decidable (_ ≤ _))
  | .call _ _ _ | .dispose => isFalse id

def DisposePhase.remaining : DisposePhase → ℕ
  | .waiting => 3
  | .resuming => 2
  | .terminating => 1
  | .notCalled | .finished => 0

def AsyncSRT.armed (s : AsyncSRT κ) : ℕ :=
  s.workCbQueue.countP fun cb => (s.timeout cb.call).isSome

/-- A message still makes a reply, and a reply still makes its callback run. -/
def AsyncSRT.remaining (s : AsyncSRT κ) : ℕ :=
  3 * s.toWorker.length + 2 * s.toMain.length + s.armed + s.running.toList.length +
    s.disposing.remaining

structure Winding (s : AsyncSRT κ) : Prop where
  queued : Queued s
  watched : Watched s
  started : s.startedToDispose = true

section

variable {s : AsyncSRT κ}

theorem started_of_next (h : s.startedToDispose = true) (e : Event κ) :
    (next s e).startedToDispose = true := by
  cases e with
  | call c callback waiter =>
    have hno : ¬ ReachesPost s c := fun hc => by simp [hc.2.2.1] at h
    obtain ⟨n, e⟩ := apiCall_of_early hno callback waiter
    simpa [next, e, AsyncSRT.recordWrite] using h
  | dispose => simp [next, AsyncSRT.dispose, h]
  | exec o => simp only [next]; split <;> exact h
  | deliver =>
    simp only [next]
    split
    · have hf := deliver_frame s ‹_›
      simp only [Prod.mk.injEq] at hf
      exact hf.2.2.1.trans h
    · exact h
  | callbackReturn threw => simp only [next]; split <;> exact h
  | timer k => simp only [next]; split <;> exact h
  | pollDispose => simp only [next]; split <;> exact h
  | resumeDispose => cases hw : s.worker <;> simpa [next, AsyncSRT.terminateWorker, hw] using h
  | exited code => exact h

theorem Winding.step (h : Winding s) {e : Event κ} (he : Enabled s e) : Winding (next s e) :=
  ⟨h.queued.step he, h.watched.step h.queued he, started_of_next h.started e⟩

theorem Winding.call_early (h : Winding s) (c : ApiCall) (callback : Bool) (waiter : κ) :
    ∃ frame, (s.apiCall c callback waiter).1 = s.recordWrite frame := by
  have hno : ¬ ReachesPost s c := fun hc => by
    have := h.started
    simp [hc.2.2.1] at this
  obtain ⟨n, e⟩ := apiCall_of_early hno callback waiter
  exact ⟨_, congrArg Prod.fst e⟩

theorem Winding.armed_timer (h : Winding s) {k : ℕ} {t : Timer} (ht : s.timeout k = some t) :
    (s.onTimeout k t).armed + 1 = s.armed := by
  have hw : s.worker = true := by
    by_contra hw
    simp [h.watched.disarmed (by simpa using hw) k] at ht
  obtain ⟨_, cb, hcb, rfl, _⟩ := h.queued.armed hw k t ht
  have hcount := @countP_update κ (fun j => (s.timeout j).isNone) _ h.queued.nodup cb hcb
    (by simp [ht])
  have hupdate : ∀ b : OnResult κ,
      Function.update (fun j => (s.timeout j).isNone) cb.call true b.call =
        (Function.update s.timeout cb.call none b.call).isNone := by
    intro b
    by_cases hb : b.call = cb.call
    · simp [hb]
    · simp [hb]
  simp only [hupdate, Option.not_isNone] at hcount
  exact hcount.symm

theorem Winding.armed_deliver (h : Winding s) (data : AsyncSRTWorkerMessage) :
    (s.deliver data).armed ≤ s.armed := by
  cases hw : s.worker with
  | false =>
    rw [deliver_of_disposed hw]
    exact le_rfl
  | true =>
    cases hq : s.workCbQueue with
    | nil =>
      simp [AsyncSRT.armed, AsyncSRT.deliver, AsyncSRT.onWorkerMessage, AsyncSRT.isDisposed, hw,
        hq]
    | cons cb ks =>
      have hrest : (s.deliver data).workCbQueue = ks := by
        rw [deliver_of_queue hw hq, onResult_eq]
      rw [AsyncSRT.armed, AsyncSRT.armed, hrest, hq]
      refine le_trans (List.countP_mono_left fun b hb hs => ?_)
        (List.sublist_cons_self cb ks).countP_le
      obtain ⟨t, ht⟩ := Option.isSome_iff_exists.mp hs
      simp [(h.queued.deliver_timeout hw hq data ht).1]

theorem Winding.remaining_deliver (h : Winding s) (hrun : s.running = none)
    {data : AsyncSRTWorkerMessage} {rest : List AsyncSRTWorkerMessage}
    (hm : s.toMain = data :: rest) : (s.deliver data).remaining < s.remaining := by
  have harmed := h.armed_deliver data
  have hf := deliver_frame s data
  simp only [Prod.mk.injEq] at hf
  obtain ⟨_, _, _, _, _, _, hport, _⟩ := hf
  have htaken : (s.deliver data).toMain = rest ∧
      (s.deliver data).disposing = s.disposing := by
    cases hw : s.worker with
    | false => simp [deliver_of_disposed hw, hm]
    | true =>
      cases hq : s.workCbQueue with
      | nil => simp [AsyncSRT.deliver, AsyncSRT.onWorkerMessage, AsyncSRT.isDisposed, hw, hq, hm]
      | cons cb ks => simp [deliver_of_queue hw hq, onResult_eq, hm]
  have hrunning : (s.deliver data).running.toList.length ≤ 1 := by
    cases (s.deliver data).running <;> simp
  simp only [AsyncSRT.remaining, hport, htaken, hm, List.length_cons, hrun, Option.toList_none,
    List.length_nil]
  omega

/-- A step either leaves what is left to do as it is or brings it down. -/
theorem Winding.remaining_next (h : Winding s) {e : Event κ} (he : Enabled s e) :
    (next s e).remaining ≤ s.remaining ∧
      (Progresses s e → (next s e).remaining < s.remaining) := by
  cases e with
  | call c callback waiter =>
    obtain ⟨frame, e⟩ := h.call_early c callback waiter
    rw [next, e]
    exact ⟨le_rfl, False.elim⟩
  | dispose =>
    rw [next, AsyncSRT.dispose, if_pos h.started]
    exact ⟨le_rfl, False.elim⟩
  | exec o =>
    cases hq : s.toWorker with
    | nil => exact absurd hq he.1
    | cons data rest =>
      have hlt : (s.exec data o).remaining < s.remaining := by
        simp only [AsyncSRT.exec, AsyncSRT.remaining, AsyncSRT.armed, hq, List.tail_cons,
          List.length_append, List.length_cons, List.length_nil]
        omega
      simp only [next, hq]
      exact ⟨hlt.le, fun _ => hlt⟩
  | deliver =>
    cases hm : s.toMain with
    | nil => exact absurd hm he.1
    | cons data rest =>
      have hlt := h.remaining_deliver he.2 hm
      simp only [next, hm]
      exact ⟨hlt.le, fun _ => hlt⟩
  | callbackReturn threw =>
    cases hr : s.running with
    | none => exact absurd hr he
    | some r =>
      have hlt : ({ s with running := none }.finishOnResult r.2).remaining < s.remaining := by
        simp [AsyncSRT.remaining, AsyncSRT.finishOnResult, AsyncSRT.armed, hr]
      simp only [next, hr]
      exact ⟨hlt.le, fun _ => hlt⟩
  | timer k =>
    cases ht : s.timeout k with
    | none => exact absurd ht he.1
    | some t =>
      have hlt : (s.onTimeout k t).remaining < s.remaining := by
        have harmed := h.armed_timer ht
        simp only [AsyncSRT.remaining]
        simp only [AsyncSRT.onTimeout, AsyncSRT.settle] at harmed ⊢
        omega
      simp only [next, ht]
      exact ⟨hlt.le, fun _ => hlt⟩
  | pollDispose =>
    by_cases hl : s.lockLevel ≤ 0
    · have hlt : { s with disposing := .resuming }.remaining < s.remaining := by
        simp [AsyncSRT.remaining, AsyncSRT.armed, he.1, DisposePhase.remaining]
      simp only [next, if_pos hl]
      exact ⟨hlt.le, fun _ => hlt⟩
    · simp only [next, if_neg hl]
      exact ⟨le_rfl, fun hp => absurd hp hl⟩
  | resumeDispose =>
    have hw := h.queued.held.mpr (Or.inr (Or.inr he.1))
    have hlt : s.terminateWorker.remaining < s.remaining := by
      rw [terminateWorker_eq hw]
      simp only [AsyncSRT.remaining, AsyncSRT.armed, he.1, DisposePhase.remaining,
        List.countP_nil]
      omega
    exact ⟨hlt.le, fun _ => hlt⟩
  | exited code =>
    have hlt : (next s (.exited code)).remaining < s.remaining := by
      simp only [next, AsyncSRT.remaining, AsyncSRT.armed, he.1, DisposePhase.remaining]
      omega
    exact ⟨hlt.le, fun _ => hlt⟩

end

theorem decreasing (κ : Type*) :
    (machine κ).Decreasing Progresses Winding AsyncSRT.remaining where
  kept _ _ h he := h.step he
  le _ _ h he := (h.remaining_next he).1
  lt _ _ h he hp := (h.remaining_next he).2 hp

/-! ## Callbacks that no reply is left for -/

/-- The callbacks behind the last message under way. -/
def AsyncSRT.orphans (s : AsyncSRT κ) : List (OnResult κ) := s.workCbQueue.drop s.unanswered

variable {s t : AsyncSRT κ}

theorem Winding.orphans_next (h : Winding s) {e : Event κ} (he : Enabled s e)
    (ht : (next s e).worker = true) : (next s e).orphans = s.orphans := by
  have hw := worker_of_next ht
  rw [AsyncSRT.orphans, AsyncSRT.orphans, unanswered_of_worker hw, unanswered_of_worker ht]
  cases e with
  | call c callback waiter =>
    obtain ⟨frame, e⟩ := h.call_early c callback waiter
    rw [next, e]
    rfl
  | dispose => rw [next, AsyncSRT.dispose, if_pos h.started]
  | exec o =>
    cases hq : s.toWorker with
    | nil => exact absurd hq he.1
    | cons data rest =>
      have hlen : rest.length + (s.toMain.length + 1) = rest.length + 1 + s.toMain.length := by
        omega
      simp [next, hq, AsyncSRT.exec, hlen]
  | deliver =>
    cases hm : s.toMain with
    | nil => exact absurd hm he.1
    | cons data rest =>
      cases hq : s.workCbQueue with
      | nil =>
        simp [next, hm, AsyncSRT.deliver, AsyncSRT.onWorkerMessage, AsyncSRT.isDisposed, hw, hq]
      | cons cb ks =>
        have hlen : s.toWorker.length + (rest.length + 1) =
            s.toWorker.length + rest.length + 1 := by omega
        simp [next, hm, deliver_of_queue hw hq, onResult_eq, hlen]
  | callbackReturn threw => simp only [next]; split <;> rfl
  | timer k => simp only [next]; split <;> rfl
  | pollDispose => simp only [next]; split <;> rfl
  | resumeDispose =>
    simp only [next, terminateWorker_eq hw] at ht
    cases ht
  | exited code => rfl

theorem Winding.untraced_next (h : Winding s) (e : Event κ) :
    (next s e).untraced = s.untraced := by
  apply AsyncApi.untraced_next
  cases e with
  | call c callback waiter =>
    intro hc
    have := hc.1.2.2.1
    simp [h.started] at this
  | _ => trivial

/-- Nothing keeps the counter up for good: every call could be traced, and every callback that no
reply is left for asked for a timeout. -/
def AsyncSRT.Unblocked (s : AsyncSRT κ) : Prop :=
  s.untraced = [] ∧ ∀ cb ∈ s.orphans, cb.useTimeout = true

theorem Winding.positive_of_blocked (h : Winding s) (hw : s.worker = true)
    (hb : ¬ s.Unblocked) : 0 < s.lockLevel := by
  have hcount := h.queued.counter hw
  rw [AsyncSRT.Unblocked, not_and_or] at hb
  rcases hb with hb | hb
  · have := List.length_pos_iff.mpr hb
    omega
  · push Not at hb
    obtain ⟨cb, hcb, hu⟩ := hb
    have hmem := List.mem_of_mem_drop hcb
    have hpos : 0 < s.awaited :=
      List.countP_pos_iff.mpr ⟨cb, hmem, by simp [h.watched.untimed cb hmem (by simpa using hu)]⟩
    omega

theorem Winding.waiting_next (h : Winding s) (hd : s.disposing = .waiting)
    (hb : ¬ s.Unblocked) {e : Event κ} (he : Enabled s e) :
    (next s e).disposing = .waiting ∧ ¬ (next s e).Unblocked := by
  have hw := h.queued.held.mpr (Or.inr (Or.inl hd))
  have hpos := h.positive_of_blocked hw hb
  have hwait : (next s e).disposing = .waiting := by
    cases e with
    | call c callback waiter =>
      obtain ⟨frame, e⟩ := h.call_early c callback waiter
      rw [next, e]
      exact hd
    | dispose => rwa [next, AsyncSRT.dispose, if_pos h.started]
    | exec o => simp only [next]; split <;> exact hd
    | deliver =>
      simp only [next]
      split
      · cases hq : s.workCbQueue with
        | nil =>
          simp [AsyncSRT.deliver, AsyncSRT.onWorkerMessage, AsyncSRT.isDisposed, hw, hq, hd]
        | cons b ks => simp [deliver_of_queue hw hq, onResult_eq, hd]
      · exact hd
    | callbackReturn threw => simp only [next]; split <;> exact hd
    | timer k => simp only [next]; split <;> exact hd
    | pollDispose => rwa [next, if_neg (by omega)]
    | resumeDispose => simp [Enabled, hd] at he
    | exited code => simp [Enabled, hd] at he
  have hheld := (h.step he).queued.held.mpr (Or.inr (Or.inl hwait))
  refine ⟨hwait, fun hu => hb ⟨(h.untraced_next e).symm.trans hu.1, ?_⟩⟩
  rw [← h.orphans_next he hheld]
  exact hu.2

theorem Winding.waiting_execution (h : Winding s) (hd : s.disposing = .waiting)
    (hb : ¬ s.Unblocked) (ht : (machine κ).Execution s t) :
    Winding t ∧ t.disposing = .waiting ∧ ¬ t.Unblocked :=
  ht.invariant (I := fun u => Winding u ∧ u.disposing = .waiting ∧ ¬ u.Unblocked) ⟨h, hd, hb⟩
    fun _ _ hu he => ⟨hu.1.step he, hu.1.waiting_next hu.2.1 hu.2.2 he⟩

/-- Where nothing is left to do but to poll in vain, the counter is kept up by what cannot be
taken off. -/
theorem Winding.blocked_of_exhausted (h : Winding s) (hex : (machine κ).Exhausted Progresses s)
    (hd : s.disposing = .waiting) : ¬ s.Unblocked := by
  rintro ⟨huntraced, horphans⟩
  have hw := h.queued.held.mpr (Or.inr (Or.inl hd))
  have hrun : s.running = none := by
    by_contra hr
    exact hex (.callbackReturn false) hr trivial
  have hworker : s.toWorker = [] := by
    by_contra hq
    exact hex (.exec (.ok .undefined)) ⟨hq, by simp [hd]⟩ trivial
  have hmain : s.toMain = [] := by
    by_contra hm
    exact hex .deliver ⟨hm, hrun⟩ trivial
  have htimers : ∀ k, s.timeout k = none := by
    intro k
    by_contra ht
    exact hex (.timer k) ⟨ht, hrun⟩ trivial
  have hlevel : 0 < s.lockLevel := by
    by_contra hl
    exact hex .pollDispose ⟨hd, hrun⟩ (by simpa [Progresses] using hl)
  have hcount := h.queued.counter hw
  rw [hrun, huntraced] at hcount
  obtain ⟨cb, hcb, hr⟩ := List.countP_pos_iff.mp
    (show 0 < s.awaited by simp only [runningShare, List.length_nil] at hcount; omega)
  have hu := horphans cb (by
    simpa [AsyncSRT.orphans, unanswered_of_worker hw, hworker, hmain] using hcb)
  rcases h.watched.timed hw cb hcb hu with ht | ht
  · exact ht (htimers cb.call)
  · simp [ht] at hr

theorem Winding.finished_of_exhausted (h : Winding s)
    (hex : (machine κ).Exhausted Progresses s) (hd : s.disposing ≠ .waiting) :
    s.disposing = .finished := by
  have hrun : s.running = none := by
    by_contra hr
    exact hex (.callbackReturn false) hr trivial
  cases hp : s.disposing with
  | notCalled =>
    have := h.queued.started.mpr hp
    simp [h.started] at this
  | waiting => exact absurd hp hd
  | resuming => exact absurd trivial (hex .resumeDispose ⟨hp, hrun⟩)
  | terminating => exact absurd trivial (hex (.exited 0) ⟨hp, hrun⟩)
  | finished => rfl

theorem Winding.unblocked_next (h : Winding s) {e : Event κ} (he : Enabled s e)
    (hu : s.worker = true → s.Unblocked) (hw : (next s e).worker = true) :
    (next s e).Unblocked := by
  obtain ⟨huntraced, horphans⟩ := hu (worker_of_next hw)
  refine ⟨(h.untraced_next e).trans huntraced, ?_⟩
  rw [h.orphans_next he hw]
  exact horphans

theorem Winding.unblocked_execution (h : Winding s) (hu : s.worker = true → s.Unblocked)
    (ht : (machine κ).Execution s t) : Winding t ∧ (t.worker = true → t.Unblocked) :=
  ht.invariant (I := fun u => Winding u ∧ (u.worker = true → u.Unblocked)) ⟨h, hu⟩
    fun _ _ hu he => ⟨hu.1.step he, hu.1.unblocked_next he hu.2⟩

theorem Winding.ends (h : Winding s) (hall : s.worker = true → s.Unblocked) :
    (machine κ).Inevitable Progresses (fun t => t.disposing = .finished) s where
  bounded :=
    ((decreasing κ).inevitable (G := fun _ => True) h fun _ _ _ => trivial).bounded
  final := by
    intro t ht hex
    obtain ⟨hwind, hunblocked⟩ := h.unblocked_execution hall ht
    apply hwind.finished_of_exhausted hex
    intro hwait
    exact hwind.blocked_of_exhausted hex hwait
      (hunblocked (hwind.queued.held.mpr (Or.inr (Or.inl hwait))))

theorem reachable_watched (h : Reachable s) : Queued s ∧ Watched s :=
  h.invariant (I := fun u => Queued u ∧ Watched u) ⟨initial_queued, initial_watched⟩
    fun _ _ hu he => ⟨hu.1.step he, hu.2.step hu.1 he⟩

/-- The second write of a chunk leaves an orphan, and then the instance is disposed of. -/
def orphanRun : List (Event Unit) :=
  [.call rewrittenChunk false (), .call rewrittenChunk false (), .dispose]

/-- The outstanding-call counter is exact in every run, also when `postMessage` throws: the
queued calls that have not timed out, the call whose callback is running, and the calls that
could not be traced. It is never negative, and with the worker gone it is zero, no timer is
armed and no call was untraced. -/
theorem lockLevel_exact (h : Reachable s) :
    0 ≤ s.lockLevel ∧
      (s.worker = true →
        s.lockLevel = s.awaited + runningShare s.running + s.untraced.length) ∧
      (s.worker = false → s.lockLevel = 0 ∧ (∀ k, s.timeout k = none) ∧ s.untraced = []) := by
  obtain ⟨hqueued, hwatched⟩ := reachable_watched h
  refine ⟨?_, hqueued.counter, fun hw =>
    ⟨(hwatched.level hw).1, hwatched.disarmed hw, (hwatched.level hw).2.2⟩⟩
  cases hw : s.worker with
  | true =>
    have := hqueued.counter hw
    omega
  | false =>
    exact (hwatched.level hw).1.ge

theorem lockLevel_exact_orphanRun :
    0 ≤ ((machine Unit).runTrace initial orphanRun).lockLevel ∧
      ((machine Unit).runTrace initial orphanRun).awaited = 2 :=
  ⟨(lockLevel_exact ((machine Unit).execution_of_trace _ orphanRun (by decide))).1, by decide⟩

theorem orphans_of_posting (h : Correlated s) : s.orphans = [] :=
  List.drop_eq_nil_of_le (queue_matches_port h).le

/-- A `dispose` that waits comes to its end, in whatever order things happen, just if every
callback that no reply is left for asked for a timeout and every call could be traced. Else it
waits for ever and the worker is never terminated. As long as nothing throws it always ends. -/
theorem dispose_ends_iff :
    (∀ s : AsyncSRT κ, Reachable s → s.disposing = .waiting →
      ((machine κ).Inevitable Progresses (fun t => t.disposing = .finished) s ↔
        s.Unblocked) ∧
      (¬ s.Unblocked → ∀ t, (machine κ).Execution s t →
        t.disposing = .waiting ∧ t.worker = true)) ∧
    ∀ s : AsyncSRT κ, (postingMachine κ).Execution initial s → s.untraced = [] →
      s.startedToDispose = true →
      (machine κ).Inevitable Progresses (fun t => t.disposing = .finished) s := by
  constructor
  · intro s hreach hd
    obtain ⟨hqueued, hwatched⟩ := reachable_watched hreach
    have hstarted : s.startedToDispose = true := by
      by_contra hno
      simp [hqueued.started.mp (by simpa using hno)] at hd
    have h : Winding s := ⟨hqueued, hwatched, hstarted⟩
    refine ⟨⟨fun hends => ?_, fun hall => h.ends fun _ => hall⟩, fun hb t ht => ?_⟩
    · by_contra hb
      obtain ⟨t, ht, _, hfin⟩ := hends.reached
      have hwait := (h.waiting_execution hd hb ht).2.1
      simp [hfin] at hwait
    · obtain ⟨hwind, hwait, _⟩ := h.waiting_execution hd hb ht
      exact ⟨hwait, hwind.queued.held.mpr (Or.inr (Or.inl hwait))⟩
  · intro s hposting huntraced hstarted
    obtain ⟨hqueued, hwatched⟩ := reachable_watched hposting.of_restrict
    have hnone := orphans_of_posting (execution_invariant hposting initial_invariant).correlated
    exact Winding.ends ⟨hqueued, hwatched, hstarted⟩ fun _ =>
      ⟨huntraced, fun cb hcb => by simp [hnone] at hcb⟩

theorem dispose_ends_iff_orphanRun :
    let s := (machine Unit).runTrace initial orphanRun
    let t := (postingMachine Unit).runTrace initial [.call rewrittenChunk false (), .dispose]
    (∀ u, (machine Unit).Execution s u → u.disposing = .waiting ∧ u.worker = true) ∧
      (machine Unit).Inevitable Progresses (fun u => u.disposing = .finished) t :=
  ⟨(dispose_ends_iff.1 _ ((machine Unit).execution_of_trace _ orphanRun (by decide))
      (by decide)).2 fun hu => absurd
        (hu.2 ⟨1, (), false, false⟩ (List.mem_singleton_self _)) (by decide),
    dispose_ends_iff.2 _ ((postingMachine Unit).execution_of_trace _
      [.call rewrittenChunk false (), .dispose] (by decide)) (by decide) (by decide)⟩

end AsyncApi
