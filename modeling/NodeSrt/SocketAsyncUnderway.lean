import NodeSrt.SocketAsyncOrder

/-! # What a disposal under way waits for

A disposal that is closing awaits its one `close`, one that is disposing has started the
disposal of the instance and awaits it once the worker has exited, and one that is emitting
has its listeners running. This holds in every run, also when `create` and `dispose` overlap. -/
namespace SocketAsync

open AsyncValues
open TransitionSystem
open AsyncApi

variable {σ ω : Type*} {sync : SyncSRT σ ω} {p : Config} {e : Event ω} {s t u : State σ ω}

structure Underway (s : State σ ω) : Prop where
  notCalled : s.startedToDispose = false ↔ s.disposal = .notCalled
  closing : s.awaits.count .disposeClose = if s.disposal = .closing then 1 else 0
  exiting : s.awaits.count .disposeAsync =
    if s.disposal = .disposing ∧ s.asyncSrt.async.disposing = .finished then 1 else 0
  emitting : s.stack.count .disposed = if s.disposal = .emitting then 1 else 0
  begun : s.disposal = .disposing → s.asyncSrt.async.startedToDispose = true
  phase : s.asyncSrt.async.disposing = .notCalled ∨ s.asyncSrt.async.disposing = .finished ∨
    s.disposal = .disposing

theorem initial_underway (n : σ) : Underway (initial n : State σ ω) := by
  constructor <;> simp [initial, Backed.initial, AsyncApi.initial, State.awaits]

namespace Underway

theorem frame (h : Underway s)
    (he : (t.startedToDispose, t.disposal, t.asyncSrt.async.disposing,
        t.asyncSrt.async.startedToDispose) =
      (s.startedToDispose, s.disposal, s.asyncSrt.async.disposing,
        s.asyncSrt.async.startedToDispose))
    (hc : t.awaits.count .disposeClose = s.awaits.count .disposeClose)
    (ha : t.awaits.count .disposeAsync = s.awaits.count .disposeAsync)
    (hs : t.stack.count .disposed = s.stack.count .disposed) : Underway t := by
  simp only [Prod.mk.injEq] at he
  obtain ⟨hstart, hdisp, hphase, hasync⟩ := he
  exact {
    notCalled := by rw [hstart, hdisp]; exact h.notCalled
    closing := by rw [hc, hdisp]; exact h.closing
    exiting := by rw [ha, hdisp, hphase]; exact h.exiting
    emitting := by rw [hs, hdisp]; exact h.emitting
    begun := by rw [hdisp, hasync]; exact h.begun
    phase := by rw [hphase, hdisp]; exact h.phase }

theorem moves (h : Underway s) (hm : Moves s t) : Underway t := by
  obtain ⟨hf, ha, hawaits, _, _, hstack, _⟩ := hm.ordinary
  simp only [Prod.mk.injEq] at hf ha
  exact h.frame (by simp [hf, ha]) (hawaits _ rfl) (hawaits _ rfl) hstack

/-! ### Where a disposal stands, from what is under way -/

theorem closing_of_mem (h : Underway s) (ha : .disposeClose ∈ s.awaits) :
    s.disposal = .closing := by
  by_contra hn
  have hcount := h.closing
  rw [if_neg hn] at hcount
  exact List.count_eq_zero.mp hcount ha

theorem exited_of_mem (h : Underway s) (ha : .disposeAsync ∈ s.awaits) :
    s.disposal = .disposing ∧ s.asyncSrt.async.disposing = .finished := by
  by_contra hn
  have hcount := h.exiting
  rw [if_neg hn] at hcount
  exact List.count_eq_zero.mp hcount ha

theorem emitting_of_mem (h : Underway s) (hs : .disposed ∈ s.stack) : s.disposal = .emitting := by
  by_contra hn
  have hcount := h.emitting
  rw [if_neg hn] at hcount
  exact List.count_eq_zero.mp hcount hs

theorem started (h : Underway s) (hd : s.disposal ≠ .notCalled) : s.startedToDispose = true := by
  by_contra hn
  exact hd (h.notCalled.mp (by simpa using hn))

theorem uncalled (h : Underway s) (hd : s.startedToDispose = false) :
    s.disposal = .notCalled ∧ s.awaits.count .disposeClose = 0 ∧
      s.awaits.count .disposeAsync = 0 ∧ s.stack.count .disposed = 0 := by
  have hn := h.notCalled.mp hd
  have hclose := h.closing
  have hexit := h.exiting
  have hemit := h.emitting
  simp only [hn, reduceCtorEq, if_false, false_and] at hclose hexit hemit
  exact ⟨hn, hclose, hexit, hemit⟩

/-! ### Steps -/

theorem step_closes (h : Underway s) (hw : Wired s) (hd : s.startedToDispose = false) :
    Underway ({ s with startedToDispose := true, disposal := .closing }.post
      (.close s.socket.toValue) .disposeClose) := by
  obtain ⟨_, hclose, hexit, hemit⟩ := h.uncalled hd
  obtain ⟨_, hphase⟩ := hw.async_notCalled hd
  obtain ⟨hperm, _, hf, ha⟩ := post_frame (hw.closing s.pollEventsTimer).invariant
    (simple_close s.socket) .disposeClose
  simp only [Prod.mk.injEq] at hf ha
  obtain ⟨_, hst, hdisp, _, hstack, _⟩ := hf
  have hcount : ∀ a : Await, _ = (s.awaits ++ [Await.disposeClose]).count a := hperm.count_eq
  refine ⟨by simp [hst, hdisp], ?_, ?_, ?_, by simp [hdisp], Or.inl (ha.2.1.trans hphase)⟩
  · simp [hcount, hdisp, List.count_append, hclose]
  · simp [hcount, hdisp, List.count_append, hexit]
  · simp [hstack, hdisp, hemit]

theorem step_vacuous (h : Underway s) (hw : Wired s) (hd : s.startedToDispose = false) :
    Underway { s with startedToDispose := true }.emitDisposed := by
  obtain ⟨_, hclose, hexit, hemit⟩ := h.uncalled hd
  obtain ⟨_, hphase⟩ := hw.async_notCalled hd
  refine ⟨by simp [State.emitDisposed, State.emit], ?_, ?_, ?_,
    by simp [State.emitDisposed, State.emit], Or.inl hphase⟩
  · simpa [State.emitDisposed, State.emit, State.awaits] using hclose
  · simpa [State.emitDisposed, State.emit, State.awaits] using hexit
  · simp [State.emitDisposed, State.emit, hemit]

theorem step_created (h : Underway s) {v : ReturnValue}
    {rest : List (Await × Except Failure ReturnValue)}
    (hq : s.microtasks = (.create, .ok v) :: rest) :
    Underway ({ s with microtasks := rest, socket := .ofReply v }.emit .created .created) := by
  have hpop := awaits_pop (t := { s with microtasks := rest, socket := .ofReply v }.emit .created
    .created) hq rfl
  refine h.frame rfl ?_ ?_ ?_
  · rw [hpop, List.count_cons_of_ne (by decide)]
  · rw [hpop, List.count_cons_of_ne (by decide)]
  · exact List.count_cons_of_ne (by decide)

theorem step_closed (h : Underway s) (hw : Wired s) (ho : Ordered s) {v : ReturnValue}
    {rest : List (Await × Except Failure ReturnValue)}
    (hq : s.microtasks = (.disposeClose, .ok v) :: rest) :
    Underway { s with microtasks := rest }.disposeAsync := by
  have hpop := awaits_pop (t := { s with microtasks := rest }) hq rfl
  have hmem : .disposeClose ∈ s.awaits := hpop ▸ List.mem_cons_self
  have hd := h.closing_of_mem hmem
  have hasync : { s with microtasks := rest }.asyncSrt.async.startedToDispose = false :=
    ho.unstarted hmem
  have hwp : Wired { s with microtasks := rest } := hw.pop hq
  obtain ⟨hsame, hstarted, hphase⟩ := hwp.dispose_same hasync
  simp only [Prod.mk.injEq] at hsame
  have hnot : s.asyncSrt.async.dispose.disposing ≠ .finished := by
    rcases hphase with hphase | hphase <;> simp [hphase]
  have hawaits : ({ s with microtasks := rest }.setAsync s.asyncSrt.async.dispose).awaits =
      { s with microtasks := rest }.awaits := by
    simp [State.awaits, State.setAsync, hsame]
  have hclose := h.closing
  have hexit := h.exiting
  have hemit := h.emitting
  rw [hpop, List.count_cons_self, if_pos hd] at hclose
  rw [hpop, List.count_cons_of_ne (by decide)] at hexit
  rw [hwp.disposeAsync_eq hasync]
  refine ⟨by simp [State.setAsync, h.started (by simp [hd])], ?_, ?_, ?_, fun _ => hstarted,
    Or.inr (Or.inr rfl)⟩
  · change ({ s with microtasks := rest }.setAsync s.asyncSrt.async.dispose).awaits.count _ = _
    rw [hawaits]
    simpa using hclose
  · change ({ s with microtasks := rest }.setAsync s.asyncSrt.async.dispose).awaits.count _ = _
    rw [hawaits, hexit]
    simp [State.setAsync, hd, hnot]
  · simpa [State.setAsync, hd] using hemit

theorem step_disposed (h : Underway s) {v : ReturnValue}
    {rest : List (Await × Except Failure ReturnValue)}
    (hq : s.microtasks = (.disposeAsync, .ok v) :: rest) :
    Underway { s with microtasks := rest, socket := .null }.emitDisposed := by
  have hpop := awaits_pop (t := { s with microtasks := rest, socket := .null }.emitDisposed) hq rfl
  obtain ⟨hd, hf⟩ := h.exited_of_mem (hpop ▸ List.mem_cons_self)
  have hclose := h.closing
  have hexit := h.exiting
  have hemit := h.emitting
  rw [hpop, List.count_cons_of_ne (by decide)] at hclose
  rw [hpop, List.count_cons_self, if_pos ⟨hd, hf⟩] at hexit
  refine ⟨by simp [State.emitDisposed, State.emit, h.started (by simp [hd])], ?_, ?_, ?_,
    by simp [State.emitDisposed, State.emit], Or.inr (Or.inl hf)⟩
  · rw [hclose]
    simp [State.emitDisposed, State.emit, hd]
  · rw [Nat.succ.inj hexit]
    simp [State.emitDisposed, State.emit]
  · simp [State.emitDisposed, State.emit, hemit, hd]

/-- A disposal that has come to its end leaves nothing behind. -/
theorem ended (hstart : s.startedToDispose = true)
    (hphase : s.asyncSrt.async.disposing = .notCalled ∨ s.asyncSrt.async.disposing = .finished)
    (he : (t.startedToDispose, t.asyncSrt) = (s.startedToDispose, s.asyncSrt))
    (hdisp : t.disposal = .finished ∨ t.disposal = .failed)
    (hc : t.awaits.count .disposeClose = 0) (ha : t.awaits.count .disposeAsync = 0)
    (hs : t.stack.count .disposed = 0) : Underway t := by
  simp only [Prod.mk.injEq] at he
  obtain ⟨hst, hasy⟩ := he
  refine ⟨?_, ?_, ?_, ?_, ?_, hasy ▸ hphase.imp_right Or.inl⟩
  · rw [hst, hstart]
    rcases hdisp with hd | hd <;> simp [hd]
  · rcases hdisp with hd | hd <;> simp [hd, hc]
  · rcases hdisp with hd | hd <;> simp [hd, ha]
  · rcases hdisp with hd | hd <;> simp [hd, hs]
  · rcases hdisp with hd | hd <;> simp [hd]

theorem step_fails (h : Underway s) (hw : Wired s) (ho : Ordered s) {a : Await} {f : Failure}
    (ha : a = .disposeClose ∨ a = .disposeAsync)
    {rest : List (Await × Except Failure ReturnValue)} (hq : s.microtasks = (a, .error f) :: rest) :
    Underway ({ s with microtasks := rest }.failDispose f) := by
  have hpop := awaits_pop (t := { s with microtasks := rest }.failDispose f) hq rfl
  have hmem : a ∈ s.awaits := hpop ▸ List.mem_cons_self
  have hclose := h.closing
  have hexit := h.exiting
  have hemit := h.emitting
  rw [hpop] at hclose hexit
  rcases ha with rfl | rfl
  · have hd := h.closing_of_mem hmem
    have hnot := hw.invariant.disposal.started.mp (ho.unstarted hmem)
    rw [List.count_cons_self, if_pos hd] at hclose
    rw [List.count_cons_of_ne (by decide)] at hexit
    simp only [hd, reduceCtorEq, false_and, if_false] at hexit hemit
    exact ended (h.started (by simp [hd])) (Or.inl hnot) rfl (Or.inr rfl) (Nat.succ.inj hclose)
      hexit hemit
  · obtain ⟨hd, hf⟩ := h.exited_of_mem hmem
    rw [List.count_cons_self, if_pos ⟨hd, hf⟩] at hexit
    rw [List.count_cons_of_ne (by decide)] at hclose
    simp only [hd, reduceCtorEq, if_false] at hclose hemit
    exact ended (h.started (by simp [hd])) (Or.inr hf) rfl (Or.inr rfl) hclose
      (Nat.succ.inj hexit) hemit

theorem step_listeners (h : Underway s) {rest : List Frame} (hs : s.stack = .disposed :: rest)
    (he : (t.startedToDispose, t.asyncSrt, t.microtasks, t.stack) =
      (s.startedToDispose, s.asyncSrt, s.microtasks, rest))
    (hdisp : t.disposal = .finished ∨ t.disposal = .failed) : Underway t := by
  simp only [Prod.mk.injEq] at he
  obtain ⟨hst, hasy, hmicro, hstack⟩ := he
  have hd := h.emitting_of_mem (hs ▸ List.mem_cons_self)
  have hclose := h.closing
  have hexit := h.exiting
  have hemit := h.emitting
  rw [hs, List.count_cons_self, if_pos hd] at hemit
  simp only [hd, reduceCtorEq, if_false, false_and] at hclose hexit
  have hawaits : t.awaits = s.awaits := by simp [State.awaits, hasy, hmicro]
  have hphase : s.asyncSrt.async.disposing = .notCalled ∨
      s.asyncSrt.async.disposing = .finished := by
    rcases h.phase with hp | hp | hp
    · exact Or.inl hp
    · exact Or.inr hp
    · simp [hd] at hp
  exact ended (h.started (by simp [hd])) hphase (by simp [hst, hasy]) hdisp (hawaits ▸ hclose)
    (hawaits ▸ hexit) (hstack ▸ Nat.succ.inj hemit)

/-- The instance disposes of itself only when the object has it do so. -/
theorem disposing_of_phase (h : Underway s)
    (hs : s.asyncSrt.async.disposing = .waiting ∨ s.asyncSrt.async.disposing = .resuming ∨
      s.asyncSrt.async.disposing = .terminating) : s.disposal = .disposing := by
  rcases h.phase with hp | hp | hp
  · rcases hs with hs | hs | hs <;> simp [hs] at hp
  · rcases hs with hs | hs | hs <;> simp [hs] at hp
  · exact hp

theorem step_phase (h : Underway s) {async : AsyncSRT Await}
    (hsame : (async.workCbQueue, async.startedToDispose) =
      (s.asyncSrt.async.workCbQueue, s.asyncSrt.async.startedToDispose))
    (hs : s.asyncSrt.async.disposing = .waiting ∨ s.asyncSrt.async.disposing = .resuming)
    (ht : async.disposing ≠ .finished) : Underway (s.setAsync async) := by
  simp only [Prod.mk.injEq] at hsame
  have hd := h.disposing_of_phase (hs.imp_right Or.inl)
  have hnot : s.asyncSrt.async.disposing ≠ .finished := by
    rcases hs with hs | hs <;> simp [hs]
  have hawaits : (s.setAsync async).awaits = s.awaits := by
    simp [State.awaits, State.setAsync, hsame]
  refine ⟨h.notCalled, hawaits ▸ h.closing, ?_, h.emitting, fun _ => hsame.2.trans (h.begun hd),
    Or.inr (Or.inr hd)⟩
  rw [hawaits, h.exiting]
  simp [State.setAsync, hnot, ht]

theorem step_exits (h : Underway s) (hd : s.asyncSrt.async.disposing = .terminating) (code : ℤ) :
    Underway ((s.setAsync (AsyncApi.next s.asyncSrt.async (.exited code))).wake .disposeAsync
      (.ok .undefined)) := by
  have hstage := h.disposing_of_phase (Or.inr (Or.inr hd))
  have hcount : ∀ a : Await, _ = (s.awaits ++ [Await.disposeAsync]).count a := fun a =>
    (awaits_wake (s.setAsync (AsyncApi.next s.asyncSrt.async (.exited code))) .disposeAsync
      (.ok .undefined)).count_eq a
  have hclose := h.closing
  have hexit := h.exiting
  simp only [hstage, hd, reduceCtorEq, and_false, if_false] at hclose hexit
  refine ⟨h.notCalled, ?_, ?_, h.emitting, h.begun, Or.inr (Or.inl rfl)⟩
  · rw [hcount, List.count_append, hclose]
    simp [State.wake, State.setAsync, hstage]
  · rw [hcount, List.count_append, hexit]
    simp [State.wake, State.setAsync, AsyncApi.next, hstage]

theorem step (h : Underway s) (hw : Wired s) (ho : Ordered s) (hc : Case sync s e t) :
    Underway t := by
  cases hc with
  | moves hm => exact h.moves hm
  | refuses => exact h.frame rfl rfl rfl rfl
  | creates _ hd =>
    have hawaits := awaits_accept { s with createCalls := s.createCalls + 1 }
      (.createSocket .undefined) .create
    refine h.frame rfl ?_ ?_ rfl
    · rw [hawaits, List.count_append]
      rfl
    · rw [hawaits, List.count_append]
      rfl
  | closes hm _ hd => exact (h.moves hm).step_closes hm.wired hd
  | vacuous hm _ hd => exact (h.moves hm).step_vacuous hm.wired hd
  | created hq => exact h.step_created hq
  | closed hq => exact h.step_closed hw ho hq
  | disposed _ hq => exact h.step_disposed hq
  | fails ha hq => exact h.step_fails hw ho ha hq
  | finishes hst => exact h.step_listeners hst rfl (Or.inl rfl)
  | throws hst => exact h.step_listeners hst rfl (Or.inr rfl)
  | executes hq => exact h.frame rfl rfl rfl rfl
  | phase hsame hph ht =>
    simp only [Prod.mk.injEq] at hsame
    refine h.step_phase (Prod.ext hsame.2.2.1 hsame.2.2.2) hph ?_
    rcases ht with ht | ht | ht <;> simp [ht]
  | exits _ hd => exact h.step_exits hd _
  | env w => exact h.frame rfl rfl rfl rfl

end Underway

theorem execution_underway {n : σ} (h : (machine sync p).Execution (initial n) s) :
    Wired s ∧ Ordered s ∧ Underway s :=
  h.invariant (I := fun s => Wired s ∧ Ordered s ∧ Underway s)
    ⟨initial_wired n, initial_ordered n, initial_underway n⟩ fun _ _ ⟨hw, ho, hu⟩ he =>
    ⟨step_wired hw he, ho.step hw (hw.changes he), hu.step hw ho (step_cases hw he).2⟩

end SocketAsync
