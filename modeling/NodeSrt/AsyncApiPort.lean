import NodeSrt.AsyncApiSteps

/-! # The port of AsyncSRT

What is under way between the instance and its worker, in every run: a `postMessage` that
throws sends nothing, so it is not seen here. -/
namespace AsyncApi

open AsyncValues
open TransitionSystem
open OrderedPort

variable {κ : Type*}

/-- Both directions of the port and the executed calls are windows of one posting order. -/
structure Ported (s : AsyncSRT κ) : Prop where
  transit : InTransit (s.posted.map Prod.snd) s.replies s.answered s.toWorker s.toMain
  defined : ∀ p ∈ s.posted, anyUndefined p.2.args = false
  calls : s.executed.map Prod.fst = (s.posted.map Prod.snd).take s.replies.length
  outcomes : s.replies = s.executed.map fun x => replyTo x.2

theorem initial_ported : Ported (initial : AsyncSRT κ) := by
  constructor <;> simp [initial, InTransit.empty]

namespace Ported

variable {s : AsyncSRT κ}

theorem frame {t : AsyncSRT κ} (h : Ported s)
    (he : (t.posted, t.toWorker, t.toMain, t.answered, t.replies, t.executed) =
      (s.posted, s.toWorker, s.toMain, s.answered, s.replies, s.executed)) : Ported t := by
  cases s
  cases t
  simp only [Prod.mk.injEq] at he
  obtain ⟨rfl, rfl, rfl, rfl, rfl, rfl⟩ := he
  exact ⟨h.transit, h.defined, h.calls, h.outcomes⟩

theorem executed_length (h : Ported s) : s.executed.length = s.replies.length := by
  simpa using (congrArg List.length h.outcomes).symm

theorem executed_at (h : Ported s) {k : ℕ} {p : OnResult κ × AsyncSRTWorkerPost}
    {m : AsyncSRTWorkerMessage} (hp : s.posted[k]? = some p) (hm : s.replies[k]? = some m) :
    ∃ o, s.executed[k]? = some (p.2, o) ∧ m = replyTo o := by
  have hk := (List.getElem?_eq_some_iff.mp hm).1
  have hpost : (s.executed.map Prod.fst)[k]? = some p.2 := by
    rw [h.calls, List.getElem?_take_of_lt hk, List.getElem?_map, hp]
    rfl
  rw [h.outcomes, List.getElem?_map] at hm
  obtain ⟨x, hx, rfl⟩ := Option.map_eq_some_iff.mp hm
  rw [List.getElem?_map, hx] at hpost
  exact ⟨x.2, by rw [hx, ← Option.some.inj hpost], rfl⟩

theorem step_accept (h : Ported s) {c : ApiCall} (hc : Accepts s c) (callback : Bool)
    (waiter : κ) : Ported (s.accept c callback waiter) where
  transit := by
    simpa [AsyncSRT.accept, AsyncSRT.prepare] using h.transit.send c.post
  defined := by
    intro p hp
    rcases List.mem_append.mp hp with hp | hp
    · exact h.defined p hp
    · rw [List.mem_singleton.mp hp]
      exact hc.1.2.2.2
  calls := by
    have hle := h.transit.served_le
    simp only [AsyncSRT.accept, AsyncSRT.prepare, List.map_append, List.map_cons, List.map_nil]
    rw [List.take_append_of_le_length hle]
    exact h.calls
  outcomes := h.outcomes

theorem step_exec (h : Ported s) {data : AsyncSRTWorkerPost}
    {rest : List AsyncSRTWorkerPost} (hq : s.toWorker = data :: rest) (o : Outcome) :
    Ported (s.exec data o) := by
  have ht := h.transit
  rw [hq] at ht
  have hnext := ht.served_next
  obtain ⟨p, hp, hdata⟩ : ∃ p, s.posted[s.replies.length]? = some p ∧ p.2 = data := by
    simpa using hnext
  have hd : anyUndefined data.args = false := hdata ▸ h.defined p (List.mem_of_getElem? hp)
  have hr : workerReply data o = replyTo o := by simp [workerReply, hd]
  constructor
  · simpa [AsyncSRT.exec, hq] using ht.serve (workerReply data o)
  · exact h.defined
  · simp only [AsyncSRT.exec, hd, Bool.false_eq_true, if_false, List.map_append, List.map_cons,
      List.map_nil, List.length_append, List.length_singleton]
    rw [List.take_add_one, hnext, h.calls]
    rfl
  · simp only [AsyncSRT.exec, hd, Bool.false_eq_true, if_false, List.map_append, List.map_cons,
      List.map_nil, hr]
    rw [← h.outcomes]

theorem step_deliver (h : Ported s) {data : AsyncSRTWorkerMessage}
    {rest : List AsyncSRTWorkerMessage} (hm : s.toMain = data :: rest) :
    Ported (s.deliver data) := by
  have ht := h.transit
  rw [hm] at ht
  have htaken : Ported { s with toMain := s.toMain.tail, answered := s.answered + 1 } :=
    { h with transit := by simpa [hm] using ht.receive }
  cases hw : s.worker with
  | false =>
    rw [deliver_of_disposed hw]
    exact htaken
  | true =>
    cases hq : s.workCbQueue with
    | nil =>
      apply htaken.frame
      simp [AsyncSRT.deliver, AsyncSRT.onWorkerMessage, AsyncSRT.isDisposed, hw, hq]
    | cons cb ks =>
      rw [deliver_of_queue hw hq, onResult_eq]
      exact htaken.frame rfl

theorem step_terminate (h : Ported s) : Ported s.terminateWorker := by
  cases hw : s.worker <;> exact h.frame (by simp [AsyncSRT.terminateWorker, hw])

theorem step_dispose (h : Ported s) : Ported s.dispose := by
  have hd : Ported { s with startedToDispose := true } := h.frame rfl
  rcases dispose_cases s with ⟨_, e⟩ | ⟨_, _, e⟩ | ⟨_, _, e⟩
  · exact e.symm ▸ h
  · exact e.symm ▸ h.frame rfl
  · exact e.symm ▸ hd.step_terminate

theorem step_call (h : Ported s) (c : ApiCall) (callback : Bool) (waiter : κ) :
    Ported (s.apiCall c callback waiter).1 := by
  rcases call_cases s c with he | ha | ht | ht
  · obtain ⟨n, e⟩ := apiCall_of_early he callback waiter
    exact e ▸ h.frame rfl
  · rw [apiCall_of_accepts ha]
    exact (h.step_accept ha callback waiter).frame rfl
  · rw [apiCall_of_throws ht]
    exact h.frame rfl
  · rw [apiCall_of_untraced ht]
    exact h.frame rfl

theorem step (h : Ported s) (e : Event κ) : Ported (next s e) := by
  cases e with
  | call c callback waiter => exact h.step_call c callback waiter
  | dispose => exact h.step_dispose
  | exec o =>
    cases hq : s.toWorker with
    | nil => simpa [next, hq] using h
    | cons data rest => simpa [next, hq] using h.step_exec hq o
  | deliver =>
    cases hm : s.toMain with
    | nil => simpa [next, hm] using h
    | cons data rest => simpa [next, hm] using h.step_deliver hm
  | callbackReturn threw =>
    simp only [next]
    split
    · exact h.frame rfl
    · exact h
  | timer k =>
    simp only [next]
    split
    · exact h.frame rfl
    · exact h
  | pollDispose =>
    simp only [next]
    split
    · exact h.frame rfl
    · exact h
  | resumeDispose => exact h.step_terminate
  | exited code => exact h.frame rfl

end Ported

end AsyncApi
