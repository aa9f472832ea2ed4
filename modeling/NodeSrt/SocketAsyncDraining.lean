import NodeSrt.SocketAsyncCalls

/-! # What is left when the worker goes

The instance is disposed of when all calls have been answered, and microtasks run before
that is looked at. So when the worker is dropped no function is left but `dispose`. -/
namespace SocketAsync

open AsyncValues
open TransitionSystem
open AsyncApi
open NativeSrt

variable {σ ω : Type*} {s t u : State σ ω} {p : Config} {x : Prompt} {e : Event ω}
  {sync : SyncSRT σ ω}

/-! ## Calls of a disposing object -/

/-- The user cannot make a disposing object call anything. -/
theorem Turn.silent {call : Call} (ht : Turn p s (.user call) t) (hd : s.startedToDispose = true) :
    t.microtasks = s.microtasks ∧ ∀ f ∈ t.stack, f ∈ s.stack := by
  obtain ⟨-, qs, ms, -, -, hm, -, hms⟩ := ht.sends
  have hnone : ∀ {a post}, ¬ Calls p s (.user call) a post := by
    intro a post hc
    cases hc with
    | bind _ _ hf | connect _ _ hf => cases hd.symm.trans hf
  have hnil : ms = [] := by
    rw [List.eq_nil_iff_forall_not_mem]
    intro y hy
    rcases hms y hy with ⟨⟨event, v, fd, he, -⟩, -⟩ | ⟨⟨post, hc⟩, -⟩
    · cases he
    · exact hnone hc
  refine ⟨by rw [hm, hnil, List.append_nil], fun f hf => ?_⟩
  exact (ht.stack f hf).resolve_right fun hn => hn.1 call rfl

structure Drained (s : State σ ω) : Prop where
  closing : ∀ v, (.disposeClose, .ok v) ∈ s.microtasks →
    s.microtasks = [(.disposeClose, .ok v)] ∧ s.stack = []
  resuming : s.asyncSrt.async.disposing = .resuming → s.microtasks = [] ∧ s.stack = []
  gone : s.asyncSrt.async.worker = false → (∀ a ∈ s.awaits, a = .disposeAsync) ∧ .opened ∉ s.stack

theorem initial_drained (n : σ) : Drained (initial n : State σ ω) := by
  constructor <;> simp [initial, Backed.initial, AsyncApi.initial]

namespace Drained

theorem frame (h : Drained s) (hm : t.microtasks = s.microtasks) (hst : t.stack = s.stack)
    (hd : t.asyncSrt.async.disposing = .resuming → s.asyncSrt.async.disposing = .resuming ∨
      s.microtasks = [] ∧ s.stack = [])
    (hw : t.asyncSrt.async.worker = false → s.asyncSrt.async.worker = false)
    (ha : ∀ a ∈ t.awaits, a ∈ s.awaits) : Drained t := by
  refine ⟨?_, fun hr => ?_, fun hg => ?_⟩
  · rw [hm, hst]
    exact h.closing
  · rw [hm, hst]
    exact (hd hr).elim h.resuming id
  · obtain ⟨hall, ho⟩ := h.gone (hw hg)
    exact ⟨fun a hmem => hall a (ha a hmem), hst ▸ ho⟩

theorem not_resuming (h : Drained s) (hx : Prompted s e x u) (hn : ∀ call, x ≠ .user call) :
    s.asyncSrt.async.disposing ≠ .resuming := by
  intro hd
  obtain ⟨hm, hst⟩ := h.resuming hd
  cases hx with
  | user he => exact hn _ rfl
  | await hs hq => simp [hm] at hq
  | listeners hs => simp [hst] at hs
  | timer hi ht => exact hi.2.2 hd

/-- The reply to the `close` of `dispose` is alone. -/
theorem not_closing (h : Drained s) (hx : Prompted s e x u) (hn : ∀ call, x ≠ .user call)
    {v : ReturnValue} : (.disposeClose, .ok v) ∉ u.microtasks := by
  intro hv
  cases hx with
  | user he => exact hn _ rfl
  | await hs hq =>
    have hc := (h.closing v (hq ▸ List.mem_cons_of_mem _ hv)).1
    rw [hq] at hc
    have hnil := (List.cons.inj hc).2
    rw [show ({ s with microtasks := _ } : State σ ω).microtasks = _ from rfl, hnil] at hv
    cases hv
  | listeners hs =>
    have hst := (h.closing v hv).2
    simp [hst] at hs
  | timer hi ht =>
    have hv : (Await.disposeClose, .ok v) ∈ s.microtasks := hv
    simp [hi.2.1] at hv

theorem calls_held (h : Drained s) (hw : Wired s) (hx : Prompted s e x u) {a : Await}
    {post : AsyncSRTWorkerPost} (hc : Calls p u x a post) : s.asyncSrt.async.worker = true := by
  by_contra hn
  obtain ⟨hall, ho⟩ := h.gone (by simpa using hn)
  have hstart : s.asyncSrt.async.startedToDispose = true := by
    by_contra hd
    exact hn (hw.held (by simpa using hd))
  have hsame := hx.same
  simp only [Prod.mk.injEq] at hsame
  have hawait : ∀ {b r}, x = .await b r → b = .disposeAsync := by
    rintro b r rfl
    cases hx with
    | await hs hq => exact hall b (mem_awaits.mpr (Or.inl ⟨r, hq ▸ List.mem_cons_self⟩))
  cases hc with
  | bind _ _ hd | connect _ _ hd =>
    rw [hsame.2.2.1, hw.disposing hstart] at hd
    cases hd
  | subscribe =>
    cases hx with
    | listeners hs => exact ho (hs ▸ List.mem_cons_self)
  | pollAgain hd =>
    rw [hsame.1, hstart] at hd
    cases hd
  | listen | epollCreate | poll | status | accept | add => cases hawait rfl

theorem turn (h : Drained s) (ho : Ordered s) (hw : Wired s) (hx : Prompted s e x u)
    (ht : Turn p u x t) : Drained t := by
  have hsends := ht.sends
  obtain ⟨hf, qs, ms, -, -, hm, -, hms⟩ := ht.sends
  have hsame := hx.same
  simp only [Prod.mk.injEq] at hf hsame
  obtain ⟨-, -, -, -, hstart, hwork, -, hdisp⟩ := hf
  -- a call of the user comes to nothing once `dispose` was called
  have huser : ∀ {call}, x = .user call → s.startedToDispose = true →
      t.microtasks = s.microtasks ∧ ∀ f ∈ t.stack, f ∈ s.stack := by
    rintro call rfl hd
    cases hx with
    | user he => exact ht.silent hd
  have hstack : s.stack = [] → (∀ f ∈ t.stack, f ∈ s.stack) → t.stack = [] := by
    intro hnil hsub
    rw [List.eq_nil_iff_forall_not_mem]
    intro f hf
    have hmem := hsub f hf
    simp [hnil] at hmem
  refine ⟨fun v hv => ?_, fun hr => ?_, fun hg => ?_⟩
  · rw [hm] at hv
    rcases List.mem_append.mp hv with hv | hv
    · by_cases hn : ∀ call, x ≠ .user call
      · exact absurd hv (h.not_closing hx hn)
      · obtain ⟨call, rfl⟩ := by simpa using hn
        cases hx with
        | user he =>
          have hd : s.startedToDispose = true := by
            by_contra hd
            exact ho.unclosed (by simpa using hd) (mem_awaits.mpr (Or.inl ⟨_, hv⟩))
          obtain ⟨hmicro, hsub⟩ := huser rfl hd
          obtain ⟨hone, hnil⟩ := h.closing v hv
          exact ⟨hmicro.trans hone, hstack hnil hsub⟩
    · rcases hms _ hv with ⟨hc, -⟩ | ⟨⟨post, hc⟩, -⟩
      · cases hc.not_owning
      · cases hc.not_owning
  · rw [hdisp, hsame.1] at hr
    by_cases hn : ∀ call, x ≠ .user call
    · exact absurd hr (h.not_resuming hx hn)
    · obtain ⟨call, rfl⟩ := by simpa using hn
      have hd : s.startedToDispose = true := by
        apply hw.disposing
        by_contra hd
        have hnot := hw.invariant.disposal.started.mp (by simpa using hd)
        simp [hnot] at hr
      obtain ⟨hmicro, hsub⟩ := huser rfl hd
      obtain ⟨hnil, hnil'⟩ := h.resuming hr
      exact ⟨hmicro.trans hnil, hstack hnil' hsub⟩
  · rw [hwork, hsame.1] at hg
    obtain ⟨hall, hno⟩ := h.gone hg
    have hawait : ∀ {b r}, x = .await b r → b = .disposeAsync := by
      rintro b r rfl
      cases hx with
      | await hs hq => exact hall b (mem_awaits.mpr (Or.inl ⟨r, hq ▸ List.mem_cons_self⟩))
    refine ⟨fun a ha => ?_, fun hmem => ?_⟩
    · rcases hsends.mem_awaits ha with ha | ⟨event, v, fd, he, -⟩ | ⟨post, hc⟩
      · exact hall a (hx.awaits a ha)
      · cases hawait he
      · cases hg.symm.trans (h.calls_held hw hx hc)
    · rcases ht.stack _ hmem with hmem | ⟨-, hserves | ⟨-, v, -, he, -⟩⟩
      · exact hno (hx.stack _ hmem)
      · cases hserves
      · cases hawait he

theorem step_delivers (hw : Wired s) (he : Enabled s (.deliver : Event ω)) :
    Drained s.deliver := by
  have hasync := (hw.moves_deliver he).ordinary.async
  obtain ⟨a, v, -, -, hm, hf⟩ := hw.delivers he
  obtain ⟨⟨hst, -, hres⟩, hmain⟩ := he
  simp only [Prod.mk.injEq] at hasync hf
  obtain ⟨-, hdisp, -, hwork⟩ := hasync
  have hstack : s.deliver.stack = [] := hf.2.2.2.1.trans hst
  refine ⟨fun w hw' => ?_, fun hr => absurd (hdisp ▸ hr) hres, fun hg => ?_⟩
  · rw [hm] at hw' ⊢
    rw [List.mem_singleton.mp hw']
    exact ⟨rfl, hstack⟩
  · exact absurd (hw.dropped (hwork ▸ hg)).2.2 hmain

theorem step_closes (ho : Ordered s) (hw : Wired s) (timer : Bool)
    (hd : s.startedToDispose = false) :
    Drained ({ s with
      pollEventsTimer := timer
      startedToDispose := true
      disposal := .closing }.post (.close s.socket.toValue) .disposeClose) := by
  obtain ⟨hstart, hnot⟩ := hw.async_notCalled hd
  obtain ⟨hf, -, qs, ms, -, -, hm, -, hms⟩ :=
    (hw.closing timer).post_sends (simple_close s.socket) .disposeClose
  simp only [Prod.mk.injEq] at hf
  obtain ⟨-, -, -, -, -, hwork, -, hdisp⟩ := hf
  generalize State.post _ _ _ = t at *
  refine ⟨fun v hv => ?_, fun hr => ?_, fun hg => ?_⟩
  · rw [hm] at hv
    rcases List.mem_append.mp hv with hv | hv
    · exact absurd (mem_awaits.mpr (Or.inl ⟨_, hv⟩)) (ho.unclosed hd)
    · rcases (hms _ hv).2 with ⟨e, he⟩ | ⟨-, hs⟩
      · cases he
      · cases hs.symm.trans hstart
  · cases (hdisp.symm.trans hr).symm.trans hnot
  · cases (hwork.symm.trans hg).symm.trans (hw.held hstart)

theorem step_closed (h : Drained s) (ho : Ordered s) (hw : Wired s) {v : ReturnValue}
    {rest : List (Await × Except Failure ReturnValue)}
    (hq : s.microtasks = (.disposeClose, .ok v) :: rest) :
    Drained { s with microtasks := rest }.disposeAsync := by
  have hmem : (.disposeClose, .ok v) ∈ s.microtasks := hq ▸ List.mem_cons_self
  have hstart := ho.unstarted (mem_awaits.mpr (Or.inl ⟨_, hmem⟩))
  obtain ⟨hone, hst⟩ := h.closing v hmem
  obtain rfl : rest = [] := (List.cons.inj (hq.symm.trans hone)).2
  have hwp : Wired { s with microtasks := [] } := hw.pop hq
  obtain ⟨hsame, -, hphase⟩ := hwp.dispose_same hstart
  simp only [Prod.mk.injEq] at hsame
  rw [hwp.disposeAsync_eq hstart]
  refine ⟨(fun w hw' => by cases hw'), fun hr => ?_, fun hg => ?_⟩
  · have hr : s.asyncSrt.async.dispose.disposing = .resuming := hr
    rcases hphase with hp | hp <;> cases hp.symm.trans hr
  · have hg : s.asyncSrt.async.dispose.worker = false := hg
    -- the worker is dropped at once only when no call is left
    have hl : s.asyncSrt.async.lockLevel ≤ 0 := by
      rcases dispose_cases s.asyncSrt.async with ⟨he, -⟩ | ⟨-, -, e⟩ | ⟨-, hl, -⟩
      · cases he.symm.trans hstart
      · rw [e] at hg
        cases hg.symm.trans (hw.held hstart)
      · exact hl
    have hnil := hw.queue_nil hl
    refine ⟨fun a ha => ?_, fun hmem => ?_⟩
    · simp [State.awaits, State.setAsync, hsame.2.2.2, hnil] at ha
    · have hmem : Frame.opened ∈ s.stack := hmem
      simp [hst] at hmem

theorem step_terminates (h : Drained s) (hw : Wired s)
    (hd : s.asyncSrt.async.disposing = .resuming) :
    Drained (s.setAsync s.asyncSrt.async.terminateWorker) := by
  obtain ⟨hm, hst⟩ := h.resuming hd
  have hl := hw.invariant.disposal.clear (by simp [hd]) (by simp [hd])
  have hsame := hw.terminateWorker_same hl
  simp only [Prod.mk.injEq] at hsame
  refine ⟨fun v hv => ?_, fun _ => ⟨hm, hst⟩, fun _ => ⟨fun a ha => ?_, fun hmem => ?_⟩⟩
  · have hv : (Await.disposeClose, .ok v) ∈ s.microtasks := hv
    simp [hm] at hv
  · simp [State.awaits, State.setAsync, hsame.2.2.2.1, hw.queue_nil hl, hm] at ha
  · have hmem : Frame.opened ∈ s.stack := hmem
    simp [hst] at hmem

theorem step_exits (h : Drained s) (hw : Wired s) (hi : Idle s)
    (hd : s.asyncSrt.async.disposing = .terminating) (code : ℤ) :
    Drained ((s.setAsync (AsyncApi.next s.asyncSrt.async (.exited code))).wake .disposeAsync
      (.ok .undefined)) := by
  obtain ⟨hall, ho⟩ := h.gone (hw.terminated (Or.inl hd))
  refine ⟨fun v hv => ?_, (fun hr => by cases hr), fun _ => ⟨fun a ha => ?_, ho⟩⟩
  · rcases List.mem_append.mp hv with hv | hv
    · have hv : (Await.disposeClose, .ok v) ∈ s.microtasks := hv
      simp [hi.2.1] at hv
    · cases List.mem_singleton.mp hv
  · rcases List.mem_append.mp ((awaits_wake _ _ _).mem_iff.mp ha) with ha | ha
    · exact hall a ha
    · exact List.mem_singleton.mp ha

theorem step (h : Drained s) (ho : Ordered s) (hw : Wired s) (hc : Change sync p s e t) :
    Drained t := by
  have hpopped : ∀ {a r rest}, s.microtasks = (a, r) :: rest → ∀ v,
      (.disposeClose, .ok v) ∉ rest := by
    intro a r rest hq v hv
    have hone := (h.closing v (hq ▸ List.mem_cons_of_mem _ hv)).1
    rw [hq] at hone
    rw [(List.cons.inj hone).2] at hv
    cases hv
  cases hc with
  | turns hx _ ht => exact h.turn ho hw hx ht
  | delivers he => exact step_delivers hw he
  | creates hs hd =>
    obtain ⟨hstart, hnot⟩ := hw.async_notCalled hd
    refine ⟨fun v hv => ?_, fun hr => ?_, fun hg => ?_⟩
    · have hv : (Await.disposeClose, .ok v) ∈ s.microtasks := hv
      exact absurd (mem_awaits.mpr (Or.inl ⟨_, hv⟩)) (ho.unclosed hd)
    · cases hnot.symm.trans hr
    · cases (hw.held hstart).symm.trans hg
  | @created rest v hs hq =>
    refine ⟨fun w hv => absurd hv (hpopped hq w), fun hr => ?_, fun hg => ?_⟩
    · have hm := (h.resuming hr).1
      simp [hq] at hm
    · cases (h.gone hg).1 .create (mem_awaits.mpr (Or.inl ⟨_, hq ▸ List.mem_cons_self⟩))
  | closes _ _ hd => exact step_closes ho hw _ hd
  | vacuous _ _ hd =>
    obtain ⟨hstart, hnot⟩ := hw.async_notCalled hd
    refine ⟨fun v hv => ?_, fun hr => ?_, fun hg => ?_⟩
    · have hv : (Await.disposeClose, .ok v) ∈ s.microtasks := hv
      exact absurd (mem_awaits.mpr (Or.inl ⟨_, hv⟩)) (ho.unclosed hd)
    · cases hnot.symm.trans hr
    · cases (hw.held hstart).symm.trans hg
  | closed _ hq => exact h.step_closed ho hw hq
  | @disposed rest v hs hq =>
    refine ⟨fun w hv => absurd hv (hpopped hq w), fun hr => ?_, fun hg => ⟨fun a ha => ?_, ?_⟩⟩
    · have hm := (h.resuming hr).1
      simp [hq] at hm
    · have hpop := awaits_pop (t := { s with microtasks := rest }) hq rfl
      exact (h.gone hg).1 a (hpop ▸ List.mem_cons_of_mem _ ha)
    · simp [State.emitDisposed, State.emit, hs]
  | executes hq => exact h.frame rfl rfl Or.inl id fun a ha => ha
  | waits hi hd =>
    simp only [AsyncApi.next]
    split
    · exact h.frame rfl rfl (fun _ => Or.inr ⟨hi.2.1, hi.1⟩) id fun a ha => ha
    · exact h
  | terminates _ hd => exact h.step_terminates hw hd
  | exits hi hd => exact h.step_exits hw hi hd _
  | env w => exact h.frame rfl rfl Or.inl id fun a ha => ha

end Drained

theorem execution_drained {n : σ} (h : (machine sync p).Execution (initial n) s) : Drained s := by
  have main : (machine sync p).Execution (initial n) s ∧ Drained s := by
    refine h.invariant (I := fun s => (machine sync p).Execution (initial n) s ∧ Drained s)
      ⟨.refl _, initial_drained n⟩ fun u e hu he => ?_
    obtain ⟨hw, ho⟩ := execution_ordered hu.1
    have hc : Change sync p u e (next sync p u e) := hw.changes he
    exact ⟨hu.1.tail he, hu.2.step ho hw hc⟩
  exact main.2

end SocketAsync
