import NodeSrt.AsyncApiPort
import Mathlib.Data.List.Range

/-! # Invariants of AsyncSRT while posting does not throw

First the positions: the queue, both directions of the port and the executed calls are
windows of one posting order. Then what each promise, timer and callback may say. Last
the outstanding-call counter and the phases of `dispose`. -/
namespace AsyncApi

open AsyncValues
open TransitionSystem
open OrderedPort

variable {κ : Type*}

/-- The step does not make `postMessage` throw. -/
def Posts (s : AsyncSRT κ) : Event κ → Prop
  | .call c _ _ => ¬ PostThrows s c
  | _ => True

instance (s : AsyncSRT κ) : (e : Event κ) → Decidable (Posts s e)
  | .call c _ _ => inferInstanceAs (Decidable (¬ PostThrows s c))
  | .dispose | .exec _ | .deliver | .callbackReturn _ | .timer _ | .pollDispose
  | .resumeDispose | .exited _ => isTrue trivial

def postingMachine (κ : Type*) : Machine (AsyncSRT κ) (Event κ) := (machine κ).restrict Posts

instance (s : AsyncSRT κ) (e : Event κ) : Decidable ((postingMachine κ).Enabled s e) :=
  inferInstanceAs (Decidable (Enabled s e ∧ Posts s e))

/-- Calls are numbered in posting order, and position is what links them to replies. -/
structure Correlated (s : AsyncSRT κ) : Prop where
  ids : s.posted.map (fun p => p.1.call) = List.range s.nextCall
  transit : InTransit (s.posted.map Prod.snd) s.replies s.answered s.toWorker s.toMain
  waiting : s.worker = true → s.workCbQueue = (s.posted.map Prod.fst).drop s.answered
  dropped : s.worker = false → s.workCbQueue = []
  defined : ∀ p ∈ s.posted, anyUndefined p.2.args = false
  calls : s.executed.map Prod.fst = (s.posted.map Prod.snd).take s.replies.length
  outcomes : s.replies = s.executed.map fun x => replyTo x.2

theorem initial_correlated : Correlated (initial : AsyncSRT κ) := by
  constructor <;> simp [initial, InTransit.empty]

namespace Correlated

variable {s : AsyncSRT κ}

theorem frame {t : AsyncSRT κ} (h : Correlated s)
    (he : (t.posted, t.nextCall, t.worker, t.workCbQueue, t.toWorker, t.toMain, t.answered,
      t.replies, t.executed) = (s.posted, s.nextCall, s.worker, s.workCbQueue, s.toWorker,
      s.toMain, s.answered, s.replies, s.executed)) : Correlated t := by
  cases s
  cases t
  simp only [Prod.mk.injEq] at he
  obtain ⟨rfl, rfl, rfl, rfl, rfl, rfl, rfl, rfl, rfl⟩ := he
  exact ⟨h.ids, h.transit, h.waiting, h.dropped, h.defined, h.calls, h.outcomes⟩

theorem posted_length (h : Correlated s) : s.posted.length = s.nextCall := by
  simpa using congrArg List.length h.ids

theorem accepted (h : Correlated s) : s.accepted = Finset.range s.nextCall := by
  ext k
  simp [AsyncSRT.accepted, h.ids]

theorem call_at (h : Correlated s) {k : ℕ} {p : OnResult κ × AsyncSRTWorkerPost}
    (hp : s.posted[k]? = some p) : p.1.call = k := by
  have hk : (s.posted.map fun p => p.1.call)[k]? = some p.1.call := by simp [hp]
  rw [h.ids] at hk
  exact ((List.getElem?_eq_some_iff.mp hk).2 ▸ List.getElem_range _ :)

theorem ported (h : Correlated s) : Ported s :=
  ⟨h.transit, h.defined, h.calls, h.outcomes⟩

theorem executed_length (h : Correlated s) : s.executed.length = s.replies.length :=
  h.ported.executed_length

theorem executed_at (h : Correlated s) {k : ℕ} {p : OnResult κ × AsyncSRTWorkerPost}
    {m : AsyncSRTWorkerMessage} (hp : s.posted[k]? = some p) (hm : s.replies[k]? = some m) :
    ∃ o, s.executed[k]? = some (p.2, o) ∧ m = replyTo o := h.ported.executed_at hp hm

theorem head (h : Correlated s) (hw : s.worker = true) {data : AsyncSRTWorkerMessage}
    {rest : List AsyncSRTWorkerMessage} (hm : s.toMain = data :: rest) :
    ∃ p ks, s.workCbQueue = p.1 :: ks ∧ s.posted[s.answered]? = some p ∧
      p.1.call = s.answered ∧ s.answered < s.nextCall ∧ s.replies[s.answered]? = some data ∧
      ks = (s.posted.map Prod.fst).drop (s.answered + 1) := by
  have ht := h.transit
  rw [hm] at ht
  obtain ⟨cb, ks, hq, hcb, hks⟩ := ht.waiting_head (h.waiting hw) (by simp)
  obtain ⟨p, hp, rfl⟩ : ∃ p, s.posted[s.answered]? = some p ∧ p.1 = cb := by simpa using hcb
  have hlt := ht.received_lt
  rw [List.length_map, h.posted_length] at hlt
  exact ⟨p, ks, hq, hp, h.call_at hp, hlt, ht.received_next, hks⟩

theorem step_accept (h : Correlated s) {c : ApiCall} (hc : Accepts s c) (callback : Bool)
    (waiter : κ) : Correlated (s.accept c callback waiter) := by
  obtain ⟨htransit, hdefined, hcalls, houtcomes⟩ := h.ported.step_accept hc callback waiter
  refine ⟨?_, htransit, ?_, ?_, hdefined, hcalls, houtcomes⟩
  · simp [AsyncSRT.accept, AsyncSRT.prepare, List.map_append, h.ids, List.range_succ]
  · intro hw
    have hle := h.transit.received_le.trans h.transit.served_le
    rw [List.length_map] at hle
    simp only [AsyncSRT.accept, AsyncSRT.prepare, List.map_append, List.map_cons, List.map_nil]
    rw [List.drop_append_of_le_length (by simpa using hle), h.waiting hw]
  · intro hw
    have := hc.1.2.1
    simp [AsyncSRT.accept, AsyncSRT.prepare, this] at hw

theorem step_exec (h : Correlated s) {data : AsyncSRTWorkerPost}
    {rest : List AsyncSRTWorkerPost} (hq : s.toWorker = data :: rest) (o : Outcome) :
    Correlated (s.exec data o) := by
  obtain ⟨htransit, hdefined, hcalls, houtcomes⟩ := h.ported.step_exec hq o
  exact ⟨h.ids, htransit, h.waiting, h.dropped, hdefined, hcalls, houtcomes⟩

theorem step_deliver (h : Correlated s) {data : AsyncSRTWorkerMessage}
    {rest : List AsyncSRTWorkerMessage} (hm : s.toMain = data :: rest) :
    Correlated (s.deliver data) := by
  have htransit := (h.ported.step_deliver hm).transit
  cases hw : s.worker with
  | false =>
    rw [deliver_of_disposed hw] at htransit ⊢
    exact { h with
        transit := htransit
        waiting := by simp [hw]
        dropped := fun _ => h.dropped hw }
  | true =>
    obtain ⟨p, ks, hq, _, _, _, _, hks⟩ := h.head hw hm
    rw [deliver_of_queue hw hq, onResult_eq] at htransit ⊢
    exact { h with
        transit := htransit
        waiting := fun _ => hks
        dropped := by simp [hw] }

theorem step_terminate (h : Correlated s) : Correlated s.terminateWorker := by
  cases hw : s.worker <;> simp only [AsyncSRT.terminateWorker, hw, if_true, if_false,
    Bool.false_eq_true]
  all_goals exact { h with waiting := by simp, dropped := fun _ => rfl }

theorem step_dispose (h : Correlated s) : Correlated s.dispose := by
  have hd : Correlated { s with startedToDispose := true } :=
    h.frame rfl
  rcases dispose_cases s with ⟨_, e⟩ | ⟨_, _, e⟩ | ⟨_, _, e⟩
  · exact e.symm ▸ h
  · rw [e]
    exact h.frame rfl
  · exact e.symm ▸ hd.step_terminate

theorem step_call (h : Correlated s) {c : ApiCall} (hc : ¬ PostThrows s c) (callback : Bool)
    (waiter : κ) : Correlated (s.apiCall c callback waiter).1 := by
  rcases call_cases s c with he | ha | ht | ht
  · obtain ⟨n, e⟩ := apiCall_of_early he callback waiter
    rw [e]
    exact h.frame rfl
  · rw [apiCall_of_accepts ha]
    have h' := h.step_accept ha callback waiter
    exact h'.frame rfl
  · exact absurd ht hc
  · rw [apiCall_of_untraced ht]
    exact h.frame rfl

theorem step (h : Correlated s) {e : Event κ} (hp : Posts s e) : Correlated (next s e) := by
  cases e with
  | call c callback waiter => exact h.step_call hp callback waiter
  | dispose => exact h.step_dispose
  | exec o =>
    cases hq : s.toWorker with
    | nil => simpa [next, hq] using h
    | cons data rest => simpa [next, hq] using h.step_exec hq o
  | deliver =>
    cases hm : s.toMain with
    | nil => simpa [next, hm] using h
    | cons data rest => simpa [next, hm] using h.step_deliver hm
  | callbackReturn threw =>
    simp only [next]
    split
    · exact h.frame rfl
    · exact h
  | timer k =>
    simp only [next]
    split
    · exact h.frame rfl
    · exact h
  | pollDispose =>
    simp only [next]
    split
    · exact h.frame rfl
    · exact h
  | resumeDispose => exact h.step_terminate
  | exited code =>
    exact h.frame rfl

end Correlated

/-- What the promise, the timer and the callback of each call may say. -/
structure Settled (s : AsyncSRT κ) : Prop where
  fresh : ∀ k, s.nextCall ≤ k →
    s.promise k = .pending ∧ s.timeout k = none ∧ s.rejected k = false
  armed : ∀ k t, s.timeout k = some t → s.promise k = .pending ∧
    ∃ p, s.posted[k]? = some p ∧ p.1.useTimeout = true ∧ t.post = p.2
  late : ∀ k, s.rejected k = true → ∃ ms p, s.posted[k]? = some p ∧ p.1.useTimeout = true ∧
    s.promise k = .rejected (.timeoutExceeded ms p.2)
  refused : ∀ k e, s.promise k = .rejected e → s.rejected k = true
  fulfilled : ∀ k v, s.promise k = .fulfilled v →
    k < s.answered ∧ ∃ m, s.replies[k]? = some m ∧ m.result = v
  logged : ∀ x ∈ s.callbacks,
    x.1 < s.answered ∧ ∃ m, s.replies[x.1]? = some m ∧ m.result = x.2
  ordered : (s.callbacks.map Prod.fst).Pairwise (· < ·)
  answered : s.worker = true → ∀ k < s.answered, s.promise k ≠ .pending

theorem initial_settled : Settled (initial : AsyncSRT κ) := by
  constructor <;> simp [initial]

theorem settled_of_pending {promise : ℕ → Settlement} {k : ℕ} (h : promise k = .pending)
    (st : Settlement) : settled promise k st = Function.update promise k st := by
  simp [settled, h]

theorem settled_of_ne {promise : ℕ → Settlement} {j k : ℕ} (h : j ≠ k) (st : Settlement) :
    settled promise k st j = promise j := by
  unfold settled
  split
  · exact Function.update_of_ne h _ _
  · rfl

namespace Settled

variable {s : AsyncSRT κ}

theorem frame {t : AsyncSRT κ} (h : Settled s)
    (he : (t.posted, t.nextCall, t.promise, t.timeout, t.rejected, t.answered, t.replies,
      t.callbacks) = (s.posted, s.nextCall, s.promise, s.timeout, s.rejected, s.answered,
      s.replies, s.callbacks)) (hw : t.worker = true → s.worker = true) : Settled t := by
  cases s
  cases t
  simp only [Prod.mk.injEq] at he
  obtain ⟨rfl, rfl, rfl, rfl, rfl, rfl, rfl, rfl⟩ := he
  exact { h with answered := fun hw' => h.answered (hw hw') }

/-- A call whose reply has not come is pending, or its timeout has fired. -/
theorem unanswered (h : Settled s) {k : ℕ} (hk : s.answered ≤ k) (hr : s.rejected k = false) :
    s.promise k = .pending := by
  cases hp : s.promise k with
  | pending => rfl
  | fulfilled v => have := (h.fulfilled k v hp).1; omega
  | rejected e => have := h.refused k e hp; simp [hr] at this

theorem step_accept (h : Settled s) (hc : Correlated s) {c : ApiCall} (callback : Bool)
    (waiter : κ) : Settled (s.accept c callback waiter) := by
  have hn : s.posted.length = s.nextCall := hc.posted_length
  have old : ∀ {k : ℕ} {p : OnResult κ × AsyncSRTWorkerPost}, s.posted[k]? = some p →
      (s.accept c callback waiter).posted[k]? = some p := by
    intro k p hp
    have hk := (List.getElem?_eq_some_iff.mp hp).1
    exact (List.getElem?_append_left hk).trans hp
  have new : (s.accept c callback waiter).posted[s.nextCall]? =
      some (⟨s.nextCall, waiter, callback, c.useTimeout⟩, c.post) := by
    simp [AsyncSRT.accept, ← hn]
  constructor
  · intro k hk
    simp only [AsyncSRT.accept, AsyncSRT.prepare] at hk ⊢
    have hf := h.fresh k (by omega)
    have hne : k ≠ s.nextCall := by omega
    refine ⟨hf.1, ?_, hf.2.2⟩
    split
    · simpa [hne] using hf.2.1
    · exact hf.2.1
  · intro k t ht
    simp only [AsyncSRT.accept, AsyncSRT.prepare] at ht
    by_cases hk : k = s.nextCall
    · subst hk
      refine ⟨(h.fresh s.nextCall le_rfl).1, ?_⟩
      cases hu : c.useTimeout with
      | false => simp [hu, (h.fresh s.nextCall le_rfl).2.1] at ht
      | true =>
        simp only [hu, if_true, Function.update_self, Option.some.injEq] at ht
        exact ⟨_, new, hu, by rw [← ht]⟩
    · have ht' : s.timeout k = some t := by
        split at ht
        · simpa [hk] using ht
        · exact ht
      obtain ⟨hp, p, hpos, hu⟩ := h.armed k t ht'
      exact ⟨hp, p, old hpos, hu⟩
  · intro k hr
    obtain ⟨ms, p, hpos, hu⟩ := h.late k hr
    exact ⟨ms, p, old hpos, hu⟩
  · exact h.refused
  · exact h.fulfilled
  · exact h.logged
  · exact h.ordered
  · exact h.answered

theorem step_exec (h : Settled s) (data : AsyncSRTWorkerPost) (o : Outcome) :
    Settled (s.exec data o) := by
  have old : ∀ {k : ℕ} {m : AsyncSRTWorkerMessage}, s.replies[k]? = some m →
      (s.exec data o).replies[k]? = some m := by
    intro k m hm
    have hk := (List.getElem?_eq_some_iff.mp hm).1
    exact (List.getElem?_append_left hk).trans hm
  refine { h with fulfilled := ?_, logged := ?_ }
  · intro k v hp
    obtain ⟨hk, m, hm, hv⟩ := h.fulfilled k v hp
    exact ⟨hk, m, old hm, hv⟩
  · intro x hx
    obtain ⟨hk, m, hm, hv⟩ := h.logged x hx
    exact ⟨hk, m, old hm, hv⟩

theorem log_append (h : Settled s) {data : AsyncSRTWorkerMessage}
    (hm : s.replies[s.answered]? = some data) (callback : Bool) :
    let log := if callback then s.callbacks ++ [(s.answered, data.result)] else s.callbacks
    (∀ x ∈ log, x.1 < s.answered + 1 ∧ ∃ m, s.replies[x.1]? = some m ∧ m.result = x.2) ∧
      (log.map Prod.fst).Pairwise (· < ·) := by
  have hold : ∀ x ∈ s.callbacks,
      x.1 < s.answered + 1 ∧ ∃ m, s.replies[x.1]? = some m ∧ m.result = x.2 := by
    intro x hx
    have := h.logged x hx
    exact ⟨by omega, this.2⟩
  cases callback with
  | false => exact ⟨hold, h.ordered⟩
  | true =>
    constructor
    · intro x hx
      rcases List.mem_append.mp hx with hx | hx
      · exact hold x hx
      · rw [List.mem_singleton.mp hx]
        exact ⟨Nat.lt_succ_self _, data, hm, rfl⟩
    · simp only [if_true, List.map_append, List.map_cons, List.map_nil]
      refine List.pairwise_append.mpr ⟨h.ordered, List.pairwise_singleton _ _, ?_⟩
      intro a ha b hb
      obtain ⟨x, hx, rfl⟩ := List.mem_map.mp ha
      rw [List.mem_singleton.mp hb]
      exact (h.logged x hx).1

theorem cleared (h : Settled s) {p : OnResult κ × AsyncSRTWorkerPost}
    (hp : s.posted[s.answered]? = some p) {k : ℕ} {t : Timer}
    (ht : (if p.1.useTimeout = true then Function.update s.timeout s.answered none
      else s.timeout) k = some t) : s.timeout k = some t ∧ k ≠ s.answered := by
  by_cases hk : k = s.answered
  · subst hk
    cases hu : p.1.useTimeout with
    | true => simp [hu] at ht
    | false =>
      simp only [hu, Bool.false_eq_true, if_false] at ht
      obtain ⟨_, q, hq, hqu, _⟩ := h.armed _ t ht
      rw [hp] at hq
      rw [← Option.some.inj hq, hu] at hqu
      cases hqu
  · refine ⟨?_, hk⟩
    split at ht
    · simpa [hk] using ht
    · exact ht

theorem step_deliver (h : Settled s) (hc : Correlated s) {data : AsyncSRTWorkerMessage}
    {rest : List AsyncSRTWorkerMessage} (hm : s.toMain = data :: rest) :
    Settled (s.deliver data) := by
  have later : ∀ k v, s.promise k = .fulfilled v →
      k < s.answered + 1 ∧ ∃ m, s.replies[k]? = some m ∧ m.result = v := by
    intro k v hp
    have := h.fulfilled k v hp
    exact ⟨by omega, this.2⟩
  cases hw : s.worker with
  | false =>
    rw [deliver_of_disposed hw]
    refine { h with fulfilled := later, logged := ?_, answered := by simp [hw] }
    intro x hx
    have := h.logged x hx
    exact ⟨Nat.lt_succ_of_lt this.1, this.2⟩
  | true =>
    obtain ⟨p, ks, hq, hp, hcall, hlt, hrep, _⟩ := hc.head hw hm
    obtain ⟨hlog, hord⟩ := h.log_append hrep p.1.callback
    rw [deliver_of_queue hw hq, onResult_eq]
    cases hr : s.rejected s.answered with
    | true =>
      simp only [hcall, hr, if_true, Bool.true_eq_false, false_and, if_false]
      refine { h with fulfilled := later, logged := hlog, ordered := hord, answered := ?_ }
      intro _ k hk
      by_cases hne : k = s.answered
      · obtain ⟨ms, q, _, _, hpr⟩ := h.late s.answered hr
        simp [hne, hpr]
      · exact h.answered hw k (by dsimp only at hk; omega)
    | false =>
      have hpend := h.unanswered le_rfl hr
      simp only [hcall, hr, Bool.false_eq_true, if_false, true_and, settled_of_pending hpend]
      exact {
        fresh := by
          intro k hk
          have hne : k ≠ s.answered := fun e => by simp only at hk; omega
          obtain ⟨h₁, h₂, h₃⟩ := h.fresh k hk
          refine ⟨by simpa [hne] using h₁, ?_, h₃⟩
          dsimp only
          split <;> simpa [hne] using h₂
        armed := by
          intro k t ht
          obtain ⟨ht', hne⟩ := h.cleared hp ht
          obtain ⟨h₁, h₂⟩ := h.armed k t ht'
          exact ⟨by simpa [hne] using h₁, h₂⟩
        late := by
          intro k hk
          obtain ⟨ms, q, hq', hu, hpr⟩ := h.late k hk
          have hne : k ≠ s.answered := by
            rintro rfl
            rw [hpend] at hpr
            cases hpr
          exact ⟨ms, q, hq', hu, by simpa [hne] using hpr⟩
        refused := by
          intro k e hk
          by_cases hne : k = s.answered
          · subst hne
            simp at hk
          · exact h.refused k e (by simpa [hne] using hk)
        fulfilled := by
          intro k v hk
          by_cases hne : k = s.answered
          · subst hne
            simp only [Function.update_self, Settlement.fulfilled.injEq] at hk
            exact ⟨Nat.lt_succ_self _, data, hrep, hk⟩
          · exact later k v (by simpa [hne] using hk)
        logged := hlog
        ordered := hord
        answered := by
          intro _ k hk
          by_cases hne : k = s.answered
          · simp [hne]
          · simpa [hne] using h.answered hw k (by dsimp only at hk; omega) }

theorem step_timer (h : Settled s) {k : ℕ} {t : Timer} (ht : s.timeout k = some t) :
    Settled (s.onTimeout k t) := by
  obtain ⟨hpend, p, hp, hu, hpost⟩ := h.armed k t ht
  simp only [AsyncSRT.onTimeout, AsyncSRT.settle, settled_of_pending hpend]
  refine ⟨?_, ?_, ?_, ?_, ?_, h.logged, h.ordered, ?_⟩
  · intro j hj
    obtain ⟨h₁, h₂, h₃⟩ := h.fresh j hj
    have hne : j ≠ k := by
      rintro rfl
      rw [h₂] at ht
      cases ht
    exact ⟨by simpa [hne] using h₁, by simpa [hne] using h₂, by simpa [hne] using h₃⟩
  · intro j t' hj
    by_cases hne : j = k
    · subst hne; simp at hj
    · obtain ⟨h₁, h₂⟩ := h.armed j t' (by simpa [hne] using hj)
      exact ⟨by simpa [hne] using h₁, h₂⟩
  · intro j hj
    by_cases hne : j = k
    · subst hne; exact ⟨t.timeoutMs, p, hp, hu, by simp [hpost]⟩
    · obtain ⟨ms, q, hq, hqu, hpr⟩ := h.late j (by simpa [hne] using hj)
      exact ⟨ms, q, hq, hqu, by simpa [hne] using hpr⟩
  · intro j e hj
    by_cases hne : j = k
    · subst hne; simp
    · simpa [hne] using h.refused j e (by simpa [hne] using hj)
  · intro j v hj
    by_cases hne : j = k
    · subst hne; simp at hj
    · exact h.fulfilled j v (by simpa [hne] using hj)
  · intro hw j hj
    by_cases hne : j = k
    · simp [hne]
    · simpa [hne] using h.answered hw j hj

theorem step_terminate (h : Settled s) : Settled s.terminateWorker := by
  cases hw : s.worker <;> simp only [AsyncSRT.terminateWorker, hw, if_true, if_false,
    Bool.false_eq_true]
  · exact h.frame rfl (by simp [hw])
  · exact h.frame rfl (by simp)

theorem step_dispose (h : Settled s) : Settled s.dispose := by
  have hd : Settled { s with startedToDispose := true } :=
    h.frame rfl id
  rcases dispose_cases s with ⟨_, e⟩ | ⟨_, _, e⟩ | ⟨_, _, e⟩
  · exact e.symm ▸ h
  · rw [e]
    exact h.frame rfl id
  · exact e.symm ▸ hd.step_terminate

theorem step_call (h : Settled s) (hc : Correlated s) {c : ApiCall} (hp : ¬ PostThrows s c)
    (callback : Bool) (waiter : κ) : Settled (s.apiCall c callback waiter).1 := by
  rcases call_cases s c with he | ha | ht | ht
  · obtain ⟨n, e⟩ := apiCall_of_early he callback waiter
    rw [e]
    exact h.frame rfl id
  · rw [apiCall_of_accepts ha]
    have h' := h.step_accept hc (c := c) callback waiter
    exact h'.frame rfl id
  · exact absurd ht hp
  · rw [apiCall_of_untraced ht]
    exact h.frame rfl id

theorem step (h : Settled s) (hc : Correlated s) {e : Event κ} (hp : Posts s e) :
    Settled (next s e) := by
  cases e with
  | call c callback waiter => exact h.step_call hc hp callback waiter
  | dispose => exact h.step_dispose
  | exec o =>
    cases hq : s.toWorker with
    | nil => simpa [next, hq] using h
    | cons data rest => simpa [next, hq] using h.step_exec data o
  | deliver =>
    cases hm : s.toMain with
    | nil => simpa [next, hm] using h
    | cons data rest => simpa [next, hm] using h.step_deliver hc hm
  | callbackReturn threw =>
    simp only [next]
    split
    · exact h.frame rfl id
    · exact h
  | timer k =>
    cases ht : s.timeout k with
    | none => simpa [next, ht] using h
    | some t => simpa [next, ht] using h.step_timer ht
  | pollDispose =>
    simp only [next]
    split
    · exact h.frame rfl id
    · exact h
  | resumeDispose => exact h.step_terminate
  | exited code =>
    exact h.frame rfl id

end Settled

/-- What the counter still holds for the callback that is running: its call is settled
already, but is counted until the callback returns. -/
def runningShare : Option (OnResult κ × Bool) → ℕ
  | some (_, false) => 1
  | _ => 0

/-- The outstanding-call counter and the phases of `dispose`. A call that could not be traced
stays counted. -/
structure Disposal (s : AsyncSRT κ) : Prop where
  counter : s.lockLevel = s.unsettled.card + runningShare s.running + s.untraced.length
  started : s.startedToDispose = false ↔ s.disposing = .notCalled
  held : s.worker = true ↔
    s.disposing = .notCalled ∨ s.disposing = .waiting ∨ s.disposing = .resuming
  clear : s.disposing ≠ .notCalled → s.disposing ≠ .waiting → s.lockLevel ≤ 0
  terminated : s.terminations = if s.worker then [] else [∅]
  timedOut : ∀ x ∈ s.flushed, x.2 = true ∧ s.rejected x.1 = true

theorem initial_disposal : Disposal (initial : AsyncSRT κ) := by
  constructor <;> simp [initial, AsyncSRT.unsettled, AsyncSRT.accepted, runningShare]

theorem filter_pending_update {A : Finset ℕ} {promise : ℕ → Settlement} {k : ℕ}
    {st : Settlement} (hst : st ≠ .pending) :
    A.filter (fun j => Function.update promise k st j = .pending) =
      (A.filter fun j => promise j = .pending).erase k := by
  ext j
  by_cases hj : j = k
  · subst hj; simp [hst]
  · simp [hj]

namespace Disposal

variable {s : AsyncSRT κ}

theorem frame {t : AsyncSRT κ} (h : Disposal s)
    (he : (t.lockLevel, t.posted, t.promise, t.running, t.startedToDispose, t.disposing,
      t.worker, t.terminations, t.flushed, t.rejected, t.untraced) = (s.lockLevel, s.posted,
      s.promise, s.running, s.startedToDispose, s.disposing, s.worker, s.terminations,
      s.flushed, s.rejected, s.untraced)) : Disposal t := by
  cases s
  cases t
  simp only [Prod.mk.injEq] at he
  obtain ⟨rfl, rfl, rfl, rfl, rfl, rfl, rfl, rfl, rfl, rfl, rfl⟩ := he
  exact ⟨h.counter, h.started, h.held, h.clear, h.terminated, h.timedOut⟩

theorem nonneg (h : Disposal s) : 0 ≤ s.lockLevel := by
  have := h.counter
  omega

theorem unsettled_empty (h : Disposal s) (hl : s.lockLevel ≤ 0) : s.unsettled = ∅ := by
  have := h.counter
  exact Finset.card_eq_zero.mp (by omega)

theorem step_accept (h : Disposal s) (hc : Correlated s) (hs : Settled s) {c : ApiCall}
    (ha : Accepts s c) (callback : Bool) (waiter : κ) :
    Disposal (s.accept c callback waiter) := by
  have hc' := hc.step_accept ha callback waiter
  have hu : (s.accept c callback waiter).unsettled = insert s.nextCall s.unsettled := by
    simp only [AsyncSRT.unsettled, hc'.accepted, hc.accepted]
    simp only [AsyncSRT.accept, AsyncSRT.prepare, Finset.range_add_one, Finset.filter_insert,
      (hs.fresh s.nextCall le_rfl).1, if_true]
  have hn : s.nextCall ∉ s.unsettled := by
    simp [AsyncSRT.unsettled, hc.accepted]
  have hd := h.started.mp ha.1.2.2.1
  refine { h with counter := ?_, clear := ?_ }
  · rw [hu, Finset.card_insert_of_notMem hn]
    have := h.counter
    simp only [AsyncSRT.accept, AsyncSRT.prepare]
    omega
  · intro hne
    exact absurd hd hne

theorem step_lose (h : Disposal s) {c : ApiCall} (hc : ReachesPost s c) :
    Disposal (s.lose c) := by
  have hd := h.started.mp hc.2.2.1
  refine { h with counter := ?_, clear := fun hne => absurd hd hne }
  have hu : (s.lose c).unsettled = s.unsettled := rfl
  rw [hu]
  have := h.counter
  simp only [AsyncSRT.lose, List.length_append, List.length_singleton]
  omega

/-- A settlement takes its call out of the unsettled ones, so the counter stays right if
it is decremented now or is still owed by the running callback. -/
theorem counter_settle {k : ℕ} {st : Settlement} {t : AsyncSRT κ} (hk : k ∈ s.unsettled)
    (hst : st ≠ .pending) (hcount : s.lockLevel = s.unsettled.card + s.untraced.length)
    (hposted : t.posted = s.posted) (hpromise : t.promise = Function.update s.promise k st)
    (huntraced : t.untraced = s.untraced)
    (hl : t.lockLevel + 1 = s.lockLevel + runningShare t.running) :
    t.lockLevel = t.unsettled.card + runningShare t.running + t.untraced.length := by
  have hu : t.unsettled = s.unsettled.erase k := by
    simp only [AsyncSRT.unsettled, AsyncSRT.accepted, hposted, hpromise]
    exact filter_pending_update hst
  have hcard := Finset.card_erase_add_one hk
  rw [hu, huntraced]
  omega

theorem step_deliver (h : Disposal s) (hc : Correlated s) (hs : Settled s)
    {data : AsyncSRTWorkerMessage} {rest : List AsyncSRTWorkerMessage}
    (hm : s.toMain = data :: rest) (hrun : s.running = none) : Disposal (s.deliver data) := by
  have hcount := h.counter
  rw [hrun] at hcount
  simp only [runningShare] at hcount
  cases hw : s.worker with
  | false =>
    rw [deliver_of_disposed hw]
    exact h.frame rfl
  | true =>
    obtain ⟨p, ks, hq, hp, hcall, hlt, hrep, _⟩ := hc.head hw hm
    rw [deliver_of_queue hw hq, onResult_eq]
    cases hr : s.rejected s.answered with
    | true =>
      simp only [hcall, hr, if_true, Bool.true_eq_false, false_and, if_false, or_true]
      refine { h with counter := ?_ }
      cases p.1.callback <;> simp only [if_true, Bool.false_eq_true, if_false, hrun,
        runningShare] <;> exact hcount
    | false =>
      have hpend := hs.unanswered le_rfl hr
      have hk : s.answered ∈ s.unsettled := by
        simp [AsyncSRT.unsettled, hc.accepted, hlt, hpend]
      simp only [hcall, hr, Bool.false_eq_true, if_false, or_false, settled_of_pending hpend]
      refine { h with counter := ?_, clear := ?_ }
      · refine counter_settle hk (by simp) (by simpa using hcount) rfl rfl rfl ?_
        cases p.1.callback <;> simp [hrun, runningShare]
      · intro h₁ h₂
        have := h.clear h₁ h₂
        have := Finset.card_pos.mpr ⟨_, hk⟩
        omega

theorem step_timer (h : Disposal s) (hc : Correlated s) (hs : Settled s) {k : ℕ} {t : Timer}
    (ht : s.timeout k = some t) (hrun : s.running = none) : Disposal (s.onTimeout k t) := by
  obtain ⟨hpend, p, hp, _, _⟩ := hs.armed k t ht
  have hcount := h.counter
  rw [hrun] at hcount
  simp only [runningShare] at hcount
  have hlt : k < s.nextCall := hc.posted_length ▸ (List.getElem?_eq_some_iff.mp hp).1
  have hk : k ∈ s.unsettled := by simp [AsyncSRT.unsettled, hc.accepted, hlt, hpend]
  have hpos := Finset.card_pos.mpr ⟨_, hk⟩
  simp only [AsyncSRT.onTimeout, AsyncSRT.settle, settled_of_pending hpend]
  refine { h with counter := ?_, clear := ?_, timedOut := ?_ }
  · refine counter_settle hk (by simp) (by simpa using hcount) rfl rfl rfl ?_
    simp [hrun, runningShare]
  · intro h₁ h₂
    have := h.clear h₁ h₂
    omega
  · intro x hx
    obtain ⟨h₁, h₂⟩ := h.timedOut x hx
    refine ⟨h₁, ?_⟩
    by_cases hxk : x.1 = k
    · simp [hxk]
    · simpa [hxk] using h₂

theorem step_callbackReturn (h : Disposal s) {cb : OnResult κ} {late : Bool}
    (hrun : s.running = some (cb, late)) :
    Disposal ({ s with running := none }.finishOnResult late) := by
  have hcount := h.counter
  rw [hrun] at hcount
  cases late with
  | true =>
    exact { h with
      counter := by
        simpa [AsyncSRT.finishOnResult, AsyncSRT.unsettled, AsyncSRT.accepted, runningShare]
          using hcount }
  | false =>
    simp only [runningShare] at hcount
    refine { h with counter := ?_, clear := ?_ }
    · have hu : ({ s with running := none }.finishOnResult false).unsettled = s.unsettled := rfl
      rw [hu]
      simp only [AsyncSRT.finishOnResult, Bool.false_eq_true, if_false, runningShare]
      omega
    · intro h₁ h₂
      have := h.clear h₁ h₂
      simp only [AsyncSRT.finishOnResult, Bool.false_eq_true, if_false]
      omega

/-- The worker is dropped with the counter at zero, so every call left in the queue has
timed out: its reply has not come and its promise is settled. -/
theorem step_terminate (h : Disposal s) (hc : Correlated s) (hs : Settled s)
    (hw : s.worker = true) (hl : s.lockLevel ≤ 0) (hd : s.startedToDispose = true) :
    Disposal s.terminateWorker := by
  have hempty := h.unsettled_empty hl
  rw [terminateWorker_eq hw]
  refine ⟨h.counter, by simp [hd], by simp, fun _ _ => hl, ?_, ?_⟩
  · simp [h.terminated, hw, hempty]
  · intro x hx
    rcases List.mem_append.mp hx with hx | hx
    · exact h.timedOut x hx
    · obtain ⟨cb, hcb, rfl⟩ := List.mem_map.mp hx
      rw [hc.waiting hw] at hcb
      obtain ⟨i, hi, hget⟩ := List.getElem_of_mem hcb
      simp only [List.getElem_drop, List.getElem_map] at hget
      have hlen : s.answered + i < s.posted.length := by
        simp only [List.length_drop, List.length_map] at hi
        omega
      have hcall : cb.call = s.answered + i := by
        rw [← hget]
        exact hc.call_at (List.getElem?_eq_getElem hlen)
      have hlate : s.rejected cb.call = true := by
        by_contra hr
        have hpend := hs.unanswered (k := cb.call) (by omega) (by simpa using hr)
        have hk : cb.call ∈ s.unsettled := by
          simp only [AsyncSRT.unsettled, hc.accepted, Finset.mem_filter, Finset.mem_range, hpend,
            and_true]
          rw [← hc.posted_length]
          omega
        rw [hempty] at hk
        exact absurd hk (Finset.notMem_empty _)
      exact ⟨hlate, hlate⟩

theorem step_dispose (h : Disposal s) (hc : Correlated s) (hs : Settled s) :
    Disposal s.dispose := by
  rcases dispose_cases s with ⟨_, e⟩ | ⟨hd, hl, e⟩ | ⟨hd, hl, e⟩
  · exact e.symm ▸ h
  · have hw := h.held.mpr (Or.inl (h.started.mp hd))
    rw [e]
    exact { h with
        started := by simp
        held := by simp [hw]
        clear := fun _ h₂ => absurd rfl h₂ }
  · have hw := h.held.mpr (Or.inl (h.started.mp hd))
    have hempty := h.unsettled_empty hl
    rw [e]
    -- the phase still reads `notCalled` here, so `step_terminate` is used on a waiting copy
    let w : AsyncSRT κ := { s with startedToDispose := true, disposing := .waiting }
    have hwait : Disposal w :=
      { h with
          started := by simp [w]
          held := by simp [w, hw]
          clear := fun _ h₂ => absurd rfl h₂ }
    have hterm := hwait.step_terminate
      (hc.frame rfl)
      (hs.frame rfl id) hw hl rfl
    rw [terminateWorker_eq (s := w) hw] at hterm
    rw [terminateWorker_eq (s := { s with startedToDispose := true }) hw]
    exact hterm

theorem step_call (h : Disposal s) (hc : Correlated s) (hs : Settled s) {c : ApiCall}
    (hp : ¬ PostThrows s c) (callback : Bool) (waiter : κ) :
    Disposal (s.apiCall c callback waiter).1 := by
  rcases call_cases s c with he | ha | ht | ht
  · obtain ⟨n, e⟩ := apiCall_of_early he callback waiter
    rw [e]
    exact h.frame rfl
  · rw [apiCall_of_accepts ha]
    have h' := h.step_accept hc hs ha callback waiter
    exact h'.frame rfl
  · exact absurd ht hp
  · rw [apiCall_of_untraced ht]
    exact (h.step_lose ht.1).frame rfl

theorem step (h : Disposal s) (hc : Correlated s) (hs : Settled s) {e : Event κ}
    (he : Enabled s e) (hp : Posts s e) : Disposal (next s e) := by
  cases e with
  | call c callback waiter => exact h.step_call hc hs hp callback waiter
  | dispose => exact h.step_dispose hc hs
  | exec o =>
    simp only [next]
    split
    · exact h.frame rfl
    · exact h
  | deliver =>
    cases hm : s.toMain with
    | nil => simpa [next, hm] using h
    | cons data rest => simpa [next, hm] using h.step_deliver hc hs hm he.2
  | callbackReturn threw =>
    cases hr : s.running with
    | none => simpa [next, hr] using h
    | some r => simpa [next, hr] using h.step_callbackReturn hr
  | timer k =>
    cases ht : s.timeout k with
    | none => simpa [next, ht] using h
    | some t => simpa [next, ht] using h.step_timer hc hs ht he.2
  | pollDispose =>
    simp only [next]
    split
    · have hw := h.held.mpr (Or.inr (Or.inl he.1))
      have hd := h.started
      rw [he.1] at hd
      exact { h with
          started := by simpa using hd
          held := by simp [hw]
          clear := fun _ _ => by assumption }
    · exact h
  | resumeDispose =>
    have hd : s.startedToDispose = true := by
      have := h.started
      rw [he.1] at this
      simpa using this
    exact h.step_terminate hc hs (h.held.mpr (Or.inr (Or.inr he.1)))
      (h.clear (by simp [he.1]) (by simp [he.1])) hd
  | exited code =>
    have hw : s.worker = false := by
      have := h.held
      rw [he.1] at this
      simpa using this
    have hd : s.startedToDispose = true := by
      have := h.started
      rw [he.1] at this
      simpa using this
    exact { h with
        started := by simp [next, hd]
        held := by simp [next, hw]
        clear := fun _ _ => h.clear (by simp [he.1]) (by simp [he.1]) }

end Disposal

structure Invariant (s : AsyncSRT κ) : Prop where
  correlated : Correlated s
  settled : Settled s
  disposal : Disposal s

theorem initial_invariant : Invariant (initial : AsyncSRT κ) :=
  ⟨initial_correlated, initial_settled, initial_disposal⟩

theorem step_preserves_invariant {s : AsyncSRT κ} (h : Invariant s) {e : Event κ}
    (he : (postingMachine κ).Enabled s e) : Invariant (next s e) :=
  ⟨h.correlated.step he.2, h.settled.step h.correlated he.2,
    h.disposal.step h.correlated h.settled he.1 he.2⟩

theorem execution_invariant {s t : AsyncSRT κ} (h : (postingMachine κ).Execution s t)
    (hs : Invariant s) : Invariant t :=
  h.invariant hs fun _ _ hu he => step_preserves_invariant hu he

end AsyncApi
