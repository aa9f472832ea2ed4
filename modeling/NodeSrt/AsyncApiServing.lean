import NodeSrt.AsyncApiQueue

/-! # Calls that get their own replies

Calls without a timeout that are in the queue when the callbacks still match the messages.
Whatever the user and the worker do afterwards, each of them is fulfilled with what its own
native call has returned, and the worker is held until then. -/
namespace AsyncApi

open AsyncValues
open TransitionSystem
open OrderedPort

variable {κ : Type*} {P : List (OnResult κ × AsyncSRTWorkerPost)} {n : ℕ} {s t : AsyncSRT κ}

/-- `P` was posted when the callbacks matched the messages; the calls from `n` on have no
timeout. -/
structure Serving (P : List (OnResult κ × AsyncSRTWorkerPost)) (n : ℕ) (s : AsyncSRT κ) :
    Prop where
  ids : ∀ k (p : OnResult κ × AsyncSRTWorkerPost), P[k]? = some p → p.1.call = k
  posted : P <+: s.posted
  fresh : P.length ≤ s.nextCall
  queue : s.worker = true → ∃ later, s.workCbQueue = (P.map Prod.fst).drop s.answered ++ later ∧
    ∀ cb ∈ later, P.length ≤ cb.call
  untimed : ∀ k, n ≤ k → k < P.length → s.timeout k = none ∧ s.rejected k = false
  pending : ∀ k, n ≤ k → k < P.length → s.answered ≤ k → s.promise k = .pending
  fulfilled : ∀ k, n ≤ k → k < P.length → k < s.answered →
    ∃ x, s.executed[k]? = some x ∧ s.promise k = .fulfilled (resultOf x.2)
  held : n < P.length → s.answered < P.length → s.worker = true

theorem serving_of_invariant (h : Invariant s) (hw : s.worker = true) (hn : s.answered ≤ n)
    (hu : ∀ k (p : OnResult κ × AsyncSRTWorkerPost), n ≤ k → s.posted[k]? = some p →
      p.1.useTimeout = false) :
    Serving s.posted n s := by
  obtain ⟨hc, hs, _⟩ := h
  have huntimed : ∀ k, n ≤ k → s.timeout k = none ∧ s.rejected k = false := by
    intro k hk
    constructor
    · by_contra ht
      obtain ⟨t, ht⟩ := Option.ne_none_iff_exists'.mp ht
      obtain ⟨_, p, hp, hut, _⟩ := hs.armed k t ht
      simp [hu k p hk hp] at hut
    · by_contra hr
      obtain ⟨_, p, hp, hut, _⟩ := hs.late k (by simpa using hr)
      simp [hu k p hk hp] at hut
  refine ⟨fun k p hp => hc.call_at hp, List.prefix_refl _, hc.posted_length.le, fun hheld => ?_,
    fun k hk _ => huntimed k hk, fun k hk _ hans => hs.unanswered hans (huntimed k hk).2,
    fun k hk _ hans => ?_, fun _ _ => hw⟩
  · exact ⟨[], by rw [hc.waiting hheld, List.append_nil], by simp⟩
  · omega

namespace Serving

theorem frame (h : Serving P n s)
    (ha : t.answered = s.answered) (hp : s.posted <+: t.posted) (hf : s.nextCall ≤ t.nextCall)
    (hsame : ∀ k, n ≤ k → k < P.length → t.promise k = s.promise k ∧ t.timeout k = s.timeout k ∧
      t.rejected k = s.rejected k)
    (hx : s.executed <+: t.executed)
    (hq : t.worker = true → s.worker = true ∧ ∃ later, t.workCbQueue = s.workCbQueue ++ later ∧
      ∀ cb ∈ later, P.length ≤ cb.call)
    (hw : n < P.length → s.answered < P.length → t.worker = true) : Serving P n t := by
  refine ⟨h.ids, h.posted.trans hp, h.fresh.trans hf, fun hheld => ?_, fun k hn hk => ?_,
    fun k hn hk hans => ?_, fun k hn hk hans => ?_, fun hn hans => hw hn (ha ▸ hans)⟩
  · obtain ⟨hsw, later, hqueue, hlater⟩ := hq hheld
    obtain ⟨earlier, hqueue', hearlier⟩ := h.queue hsw
    refine ⟨earlier ++ later, by rw [hqueue, hqueue', ha, List.append_assoc], fun cb hcb => ?_⟩
    rcases List.mem_append.mp hcb with hcb | hcb
    · exact hearlier cb hcb
    · exact hlater cb hcb
  · rw [(hsame k hn hk).2.1, (hsame k hn hk).2.2]
    exact h.untimed k hn hk
  · rw [(hsame k hn hk).1]
    exact h.pending k hn hk (ha ▸ hans)
  · obtain ⟨x, hget, hprom⟩ := h.fulfilled k hn hk (ha ▸ hans)
    exact ⟨x, getElem?_of_prefix hx hget, by rw [(hsame k hn hk).1, hprom]⟩

theorem still (h : Serving P n s)
    (he : (t.answered, t.posted, t.nextCall, t.promise, t.timeout, t.rejected, t.workCbQueue,
        t.worker, t.executed) =
      (s.answered, s.posted, s.nextCall, s.promise, s.timeout, s.rejected, s.workCbQueue,
        s.worker, s.executed)) : Serving P n t := by
  cases s
  cases t
  simp only [Prod.mk.injEq] at he
  obtain ⟨rfl, rfl, rfl, rfl, rfl, rfl, rfl, rfl, rfl⟩ := he
  exact ⟨h.ids, h.posted, h.fresh, h.queue, h.untimed, h.pending, h.fulfilled, h.held⟩

theorem step_prepare (h : Serving P n s) {c : ApiCall} (hw : s.worker = true) (callback : Bool)
    (waiter : κ) : Serving P n (s.prepare c callback waiter) := by
  have hfresh := h.fresh
  refine h.frame rfl (List.prefix_refl _) (Nat.le_succ _) (fun k _ hk => ⟨rfl, ?_, rfl⟩)
    (List.prefix_refl _) (fun _ => ⟨hw, [_], rfl, fun cb hcb => ?_⟩) (fun _ _ => hw)
  · have hne : k ≠ s.nextCall := by omega
    simp only [AsyncSRT.prepare]
    split
    · simp [hne]
    · rfl
  · rw [List.mem_singleton.mp hcb]
    exact hfresh

theorem step_call (h : Serving P n s) (c : ApiCall) (callback : Bool) (waiter : κ) :
    Serving P n (s.apiCall c callback waiter).1 := by
  rcases call_cases s c with he | ha | ht | ht
  · obtain ⟨m, e⟩ := apiCall_of_early he callback waiter
    exact e ▸ h.still rfl
  · have hp := h.step_prepare ha.1.2.1 (c := c) callback waiter
    rw [apiCall_of_accepts ha]
    exact { hp with posted := h.posted.trans (List.prefix_append _ _) }
  · have hp := h.step_prepare ht.1.2.1 (c := c) callback waiter
    have hfresh := h.fresh
    rw [apiCall_of_throws ht]
    have hother : ∀ k, n ≤ k → k < P.length →
        settled s.promise s.nextCall (.rejected .dataClone) k = s.promise k := by
      intro k _ hk
      exact settled_of_ne (by omega) _
    refine hp.frame rfl (List.prefix_refl _) le_rfl (fun k hn hk => ⟨hother k hn hk, rfl, rfl⟩)
      (List.prefix_refl _) (fun hw => ⟨hw, [], (List.append_nil _).symm, by simp⟩) hp.held
  · rw [apiCall_of_untraced ht]
    exact h.still rfl

/-- With the counter at zero all replies are in. -/
theorem answered_of_clear (h : Serving P n s) (hqueue : Queued s) (hw : s.worker = true)
    (hl : s.lockLevel ≤ 0) (hn : n < P.length) : P.length ≤ s.answered := by
  by_contra hlt
  obtain ⟨later, hq, _⟩ := h.queue hw
  have hlast : P.length - 1 < P.length := by omega
  have hmem : P[P.length - 1].1 ∈ s.workCbQueue := by
    rw [hq]
    refine List.mem_append_left _ (List.mem_iff_getElem?.mpr ⟨P.length - 1 - s.answered, ?_⟩)
    rw [List.getElem?_drop, Nat.add_sub_cancel' (by omega), List.getElem?_map,
      List.getElem?_eq_getElem hlast]
    rfl
  have hcall := h.ids _ _ (List.getElem?_eq_getElem hlast)
  have hcount := hqueue.counter hw
  have hzero : s.awaited = 0 := by omega
  rw [AsyncSRT.awaited, List.countP_eq_zero] at hzero
  have hr := hzero _ hmem
  rw [hcall, (h.untimed _ (by omega) hlast).2] at hr
  exact hr rfl

theorem step_terminate (h : Serving P n s) (hw : s.worker = true)
    (hall : n < P.length → P.length ≤ s.answered) : Serving P n s.terminateWorker := by
  rw [terminateWorker_eq hw]
  refine h.frame rfl (List.prefix_refl _) le_rfl (fun _ _ _ => ⟨rfl, rfl, rfl⟩)
    (List.prefix_refl _) (fun hheld => by cases hheld) fun hn hlt => ?_
  have := hall hn
  omega

theorem step_dispose (h : Serving P n s) (hqueue : Queued s) : Serving P n s.dispose := by
  rcases dispose_cases s with ⟨_, e⟩ | ⟨_, _, e⟩ | ⟨hd, hl, e⟩
  · exact e.symm ▸ h
  · exact e.symm ▸ h.still rfl
  · have hw := hqueue.held.mpr (Or.inl (hqueue.started.mp hd))
    have hstage : Serving P n { s with startedToDispose := true } := h.still rfl
    exact e.symm ▸ hstage.step_terminate hw (h.answered_of_clear hqueue hw hl)

theorem step_exec (h : Serving P n s) (data : AsyncSRTWorkerPost) (o : Outcome) :
    Serving P n (s.exec data o) := by
  refine h.frame rfl (List.prefix_refl _) le_rfl (fun _ _ _ => ⟨rfl, rfl, rfl⟩) ?_
    (fun hw => ⟨hw, [], (List.append_nil _).symm, by simp⟩) h.held
  simp only [AsyncSRT.exec]
  split
  · exact List.prefix_refl _
  · exact List.prefix_append _ _

theorem step_deliver_own (h : Serving P n s) (hport : Ported s) (hw : s.worker = true)
    {data : AsyncSRTWorkerMessage} (hrep : s.replies[s.answered]? = some data)
    (hlt : s.answered < P.length) : Serving P n (s.deliver data) := by
  obtain ⟨later, hq, hcalls⟩ := h.queue hw
  have hf := deliver_frame s data
  simp only [Prod.mk.injEq] at hf
  obtain ⟨hposted, hworker, _, _, hexec, _, _, hnext⟩ := hf
  have hget := List.getElem?_eq_getElem hlt
  have hcall := h.ids _ _ hget
  have hlater := getElem?_of_prefix h.posted hget
  obtain ⟨o, hx, hdata⟩ := hport.executed_at hlater hrep
  have hhead : s.workCbQueue = P[s.answered].1 ::
      ((P.map Prod.fst).drop (s.answered + 1) ++ later) := by
    rw [hq, List.drop_eq_getElem_cons (by simpa using hlt)]
    simp
  have hother := fun k (hne : k ≠ s.answered) =>
    deliver_other hw hhead data (hcall ▸ hne : k ≠ P[s.answered].1.call)
  have hans : (s.deliver data).answered = s.answered + 1 := by
    simp [deliver_of_queue hw hhead, onResult_eq]
  have hself : n ≤ s.answered → (s.deliver data).timeout s.answered = none ∧
      (s.deliver data).rejected s.answered = false ∧
      (s.deliver data).promise s.answered = .fulfilled (resultOf o) := by
    intro hn
    obtain ⟨ht, hr⟩ := h.untimed _ hn hlt
    have hp := h.pending _ hn hlt le_rfl
    simp only [deliver_of_queue hw hhead, onResult_eq, hcall, hr, settled_of_pending hp, hdata]
    refine ⟨?_, trivial, by simp⟩
    split <;> simp [ht]
  refine ⟨h.ids, hposted ▸ h.posted, hnext ▸ h.fresh, fun _ => ⟨later, ?_, hcalls⟩,
    fun k hn hk => ?_, fun k hn hk hle => ?_, fun k hn hk hle => ?_,
    fun _ _ => hworker.trans hw⟩
  · simp [deliver_of_queue hw hhead, onResult_eq]
  · by_cases hk' : k = s.answered
    · subst hk'
      exact ⟨(hself hn).1, (hself hn).2.1⟩
    · rw [(hother k hk').2.1, (hother k hk').2.2]
      exact h.untimed k hn hk
  · rw [(hother k (by omega)).1]
    exact h.pending k hn hk (by omega)
  · rw [hexec]
    by_cases hk' : k = s.answered
    · subst hk'
      exact ⟨_, hx, (hself hn).2.2⟩
    · rw [(hother k hk').1]
      exact h.fulfilled k hn hk (by omega)

theorem step_deliver_later (h : Serving P n s) (hw : s.worker = true)
    (data : AsyncSRTWorkerMessage) (hle : P.length ≤ s.answered) :
    Serving P n (s.deliver data) := by
  obtain ⟨later, hq, hlater⟩ := h.queue hw
  have hf := deliver_frame s data
  simp only [Prod.mk.injEq] at hf
  obtain ⟨hposted, hworker, _, _, hexec, _, _, hnext⟩ := hf
  have hgone : ∀ j, P.length ≤ j → (P.map Prod.fst).drop j = [] := fun j hj =>
    List.drop_eq_nil_iff.mpr (by rwa [List.length_map])
  rw [hgone _ hle, List.nil_append] at hq
  obtain ⟨ks, hks, hsub, hans, hsame⟩ : ∃ ks, (s.deliver data).workCbQueue = ks ∧
      (∀ cb ∈ ks, cb ∈ later) ∧ (s.deliver data).answered = s.answered + 1 ∧
      ∀ k < P.length, (s.deliver data).promise k = s.promise k ∧
        (s.deliver data).timeout k = s.timeout k ∧
        (s.deliver data).rejected k = s.rejected k := by
    cases hl : later with
    | nil =>
      rw [hl] at hq
      simp [AsyncSRT.deliver, AsyncSRT.onWorkerMessage, AsyncSRT.isDisposed, hw, hq]
    | cons cb ks =>
      rw [hl] at hq hlater
      refine ⟨ks, ?_, fun b hb => List.mem_cons_of_mem _ hb, ?_, fun k hk => ?_⟩
      · simp [deliver_of_queue hw hq, onResult_eq]
      · simp [deliver_of_queue hw hq, onResult_eq]
      · have := hlater cb List.mem_cons_self
        exact deliver_other hw hq data (by omega)
  refine ⟨h.ids, hposted ▸ h.posted, hnext ▸ h.fresh,
    fun _ => ⟨ks, ?_, fun cb hcb => hlater cb (hsub cb hcb)⟩, fun k hn hk => ?_,
    fun k hn hk hans' => by omega, fun k hn hk _ => ?_, fun _ hlt => by omega⟩
  · rw [hks, hgone _ (by omega), List.nil_append]
  · rw [(hsame k hk).2.1, (hsame k hk).2.2]
    exact h.untimed k hn hk
  · rw [hexec, (hsame k hk).1]
    exact h.fulfilled k hn hk (by omega)

/-- The callback that leaves the queue is that of call `answered`, or of a later call. -/
theorem step_deliver (h : Serving P n s) (hport : Ported s) {data : AsyncSRTWorkerMessage}
    {rest : List AsyncSRTWorkerMessage} (hm : s.toMain = data :: rest) :
    Serving P n (s.deliver data) := by
  cases hw : s.worker with
  | false =>
    have hall : n < P.length → P.length ≤ s.answered := by
      intro hn
      by_contra hlt
      have := h.held hn (by omega)
      simp [hw] at this
    rw [deliver_of_disposed hw]
    refine ⟨h.ids, h.posted, h.fresh, fun hheld => by simp [hw] at hheld, h.untimed,
      fun k hn hk hans => h.pending k hn hk (Nat.le_of_succ_le hans), fun k hn hk _ => ?_,
      fun hn hlt => ?_⟩
    · exact h.fulfilled k hn hk (hk.trans_le (hall (by omega)))
    · have := hall hn
      dsimp only at hlt
      omega
  | true =>
    by_cases hlt : s.answered < P.length
    · have ht := hport.transit
      rw [hm] at ht
      exact h.step_deliver_own hport hw ht.received_next hlt
    · exact h.step_deliver_later hw data (by omega)

theorem step_timer (h : Serving P n s) {k : ℕ} {t : Timer} (ht : s.timeout k = some t) :
    Serving P n (s.onTimeout k t) := by
  refine h.frame rfl (List.prefix_refl _) le_rfl (fun j hn hj => ?_) (List.prefix_refl _)
    (fun hw => ⟨hw, [], (List.append_nil _).symm, by simp⟩) h.held
  have hne : j ≠ k := by
    rintro rfl
    simp [(h.untimed j hn hj).1] at ht
  exact ⟨settled_of_ne hne _, by simp [AsyncSRT.onTimeout, AsyncSRT.settle, hne],
    by simp [AsyncSRT.onTimeout, AsyncSRT.settle, hne]⟩

theorem step (h : Serving P n s) (hqueue : Queued s) (hport : Ported s) {e : Event κ}
    (he : Enabled s e) : Serving P n (next s e) := by
  cases e with
  | call c callback waiter => exact h.step_call c callback waiter
  | dispose => exact h.step_dispose hqueue
  | exec o =>
    simp only [next]
    split
    · exact h.step_exec _ o
    · exact h
  | deliver =>
    cases hm : s.toMain with
    | nil => simpa [next, hm] using h
    | cons data rest => simpa [next, hm] using h.step_deliver hport hm
  | callbackReturn threw =>
    simp only [next]
    split
    · exact h.still rfl
    · exact h
  | timer k =>
    cases ht : s.timeout k with
    | none => simpa [next, ht] using h
    | some t => simpa [next, ht] using h.step_timer ht
  | pollDispose =>
    simp only [next]
    split
    · exact h.still rfl
    · exact h
  | resumeDispose =>
    have hw := hqueue.held.mpr (Or.inr (Or.inr he.1))
    exact h.step_terminate hw (h.answered_of_clear hqueue hw (hqueue.resuming he.1))
  | exited code => exact h.still rfl

end Serving

theorem execution_serving (h : (machine κ).Execution s t) (hqueue : Queued s) (hport : Ported s)
    (hs : Serving P n s) : Serving P n t := by
  have hall := h.invariant (I := fun u => Queued u ∧ Ported u ∧ Serving P n u)
    ⟨hqueue, hport, hs⟩ fun u e hu he => by
      obtain ⟨hu, hp, hsv⟩ := hu
      exact ⟨hu.step he, hp.step e, hsv.step hu hp he⟩
  exact hall.2.2

end AsyncApi
