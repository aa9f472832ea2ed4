import NodeSrt.SocketAsyncInvariant

/-! # The disposal of a socket object

Where `dispose` stands, what awaits there are for it, and what it has done to the socket.
This holds in the runs in which a disposal that finds a socket finds no `create` in flight;
the field is then not written behind its back. -/
namespace SocketAsync

open AsyncValues
open TransitionSystem
open AsyncApi
open NativeSrt

variable {σ ω : Type*} {s t : State σ ω}

def CreatesSettled (s : State σ ω) : Event ω → Prop
  | .dispose => s.startedToDispose = false → s.socket ≠ .null → .create ∉ s.awaits
  | _ => True

def State.closePost (s : State σ ω) : AsyncSRTWorkerPost := ⟨.close, [s.socket.toValue]⟩

structure Disposing (s : State σ ω) : Prop where
  notCalled : s.startedToDispose = false ↔ s.disposal = .notCalled
  phase : s.asyncSrt.async.disposing = .notCalled ∨ s.asyncSrt.async.disposing = .finished ∨
    s.disposal = .disposing
  unstarted : s.disposal = .closing → s.asyncSrt.async.startedToDispose = false
  closeAwait : s.awaits.count .disposeClose ≤ if s.disposal = .closing then 1 else 0
  asyncAwait : s.awaits.count .disposeAsync ≤
    if s.disposal = .disposing ∧ s.asyncSrt.async.disposing = .finished then 1 else 0
  frames : s.stack.count .disposed ≤ if s.disposal = .emitting then 1 else 0
  owned : s.disposal = .closing ∨ s.disposal = .disposing → .create ∉ s.awaits ∧
    s.socket ≠ .null ∧ ∀ p ∈ s.asyncSrt.async.posted, p.2.method = .close → p.2 = s.closePost
  closed : s.disposal = .disposing → s.closePost ∈ s.asyncSrt.async.executed.map Prod.fst

theorem initial_disposing (n : σ) : Disposing (initial n : State σ ω) := by
  constructor <;> simp [initial, Backed.initial, AsyncApi.initial, State.awaits]

namespace Disposing

theorem frame (h : Disposing s)
    (he : (t.socket, t.startedToDispose, t.disposal, t.asyncSrt.async.disposing,
        t.asyncSrt.async.startedToDispose) =
      (s.socket, s.startedToDispose, s.disposal, s.asyncSrt.async.disposing,
        s.asyncSrt.async.startedToDispose))
    (hc : t.awaits.count .disposeClose = s.awaits.count .disposeClose)
    (ha : t.awaits.count .disposeAsync = s.awaits.count .disposeAsync)
    (hs : t.stack.count .disposed = s.stack.count .disposed)
    (hcreate : s.startedToDispose = true → .create ∉ s.awaits → .create ∉ t.awaits)
    (hp : ∀ p ∈ t.asyncSrt.async.posted, p.2.method = .close → p ∈ s.asyncSrt.async.posted)
    (hx : ∀ x ∈ s.asyncSrt.async.executed, x ∈ t.asyncSrt.async.executed) : Disposing t := by
  simp only [Prod.mk.injEq] at he
  obtain ⟨hsock, hstart, hdisp, hphase, hasync⟩ := he
  have hpost : t.closePost = s.closePost := by simp [State.closePost, hsock]
  refine ⟨by rw [hstart, hdisp]; exact h.notCalled, by rw [hphase, hdisp]; exact h.phase,
    by rw [hdisp, hasync]; exact h.unstarted, by rw [hc, hdisp]; exact h.closeAwait,
    by rw [ha, hdisp, hphase]; exact h.asyncAwait, by rw [hs, hdisp]; exact h.frames, ?_, ?_⟩
  · intro hd
    rw [hdisp] at hd
    obtain ⟨hno, hne, hall⟩ := h.owned hd
    have hst : s.startedToDispose = true := by
      by_contra hn
      have hnot := h.notCalled.mp (by simpa using hn)
      rcases hd with hd | hd <;> simp [hnot] at hd
    refine ⟨hcreate hst hno, hsock ▸ hne, fun p hmem hm => ?_⟩
    rw [hpost]
    exact hall p (hp p hmem hm) hm
  · intro hd
    rw [hdisp] at hd
    rw [hpost]
    obtain ⟨x, hmem, hfst⟩ := List.mem_map.mp (h.closed hd)
    exact List.mem_map.mpr ⟨x, hx x hmem, hfst⟩

theorem moves (h : Disposing s) (hm : Moves s t) : Disposing t := by
  obtain ⟨hf, ha, hawaits, ⟨ps, hps, hmeth⟩, _, hstack, _⟩ := hm.ordinary
  simp only [Prod.mk.injEq] at hf ha
  apply h.frame (by simp [hf, ha]) (hawaits _ rfl) (hawaits _ rfl) hstack
  · intro _ hno
    rwa [← List.count_eq_zero, hawaits _ rfl, List.count_eq_zero]
  · intro p hp hclose
    rw [hps] at hp
    rcases List.mem_append.mp hp with hp | hp
    · exact hp
    · exact absurd hclose (hmeth p hp).2
  · intro x hx
    rwa [ha.1]

theorem not_disposing (h : Disposing s) (hd : s.startedToDispose = false) :
    s.disposal = .notCalled ∧ s.awaits.count .disposeClose = 0 ∧
      s.awaits.count .disposeAsync = 0 ∧ s.stack.count .disposed = 0 := by
  have hn := h.notCalled.mp hd
  have hc := h.closeAwait
  have ha := h.asyncAwait
  have hf := h.frames
  simp only [hn, reduceCtorEq, if_false, false_and] at hc ha hf
  exact ⟨hn, by omega, by omega, by omega⟩

/-! ### Where a disposal stands, from what is under way -/

theorem closing (h : Disposing s) (ha : .disposeClose ∈ s.awaits) : s.disposal = .closing := by
  have hclose := h.closeAwait
  have hpos := List.count_pos_iff.mpr ha
  by_contra hn
  rw [if_neg hn] at hclose
  omega

theorem exited (h : Disposing s) (ha : .disposeAsync ∈ s.awaits) :
    s.disposal = .disposing ∧ s.asyncSrt.async.disposing = .finished := by
  have hasync := h.asyncAwait
  have hpos := List.count_pos_iff.mpr ha
  by_contra hn
  rw [if_neg hn] at hasync
  omega

theorem emitting (h : Disposing s) (hs : .disposed ∈ s.stack) : s.disposal = .emitting := by
  have hframe := h.frames
  have hpos := List.count_pos_iff.mpr hs
  by_contra hn
  rw [if_neg hn] at hframe
  omega

theorem started (h : Disposing s) (hd : s.disposal ≠ .notCalled) : s.startedToDispose = true := by
  by_contra hn
  exact hd (h.notCalled.mp (by simpa using hn))

/-! ### Steps -/

theorem step_creates (h : Disposing s) (hd : s.startedToDispose = false) :
    Disposing ({ s with createCalls := s.createCalls + 1 }.setAsync
      (s.asyncSrt.async.accept (.createSocket .undefined) false .create)) := by
  have hawaits := awaits_accept { s with createCalls := s.createCalls + 1 }
    (.createSocket .undefined) .create
  refine h.frame rfl ?_ ?_ rfl (fun hs => by simp [hd] at hs) ?_ (fun _ hx => hx)
  · rw [hawaits, List.count_append]
    rfl
  · rw [hawaits, List.count_append]
    rfl
  · intro p hp hclose
    rcases List.mem_append.mp hp with hp | hp
    · exact hp
    · rw [List.mem_singleton.mp hp] at hclose
      cases hclose

theorem step_closes (h : Disposing s) (hw : Wired s) (hs : s.socket ≠ .null)
    (hd : s.startedToDispose = false) (hcreate : .create ∉ s.awaits) :
    Disposing ({ s with startedToDispose := true, disposal := .closing }.post
      (.close s.socket.toValue) .disposeClose) := by
  obtain ⟨_, hclose, hasync, hframe⟩ := h.not_disposing hd
  obtain ⟨hstart, hphase⟩ := hw.async_notCalled hd
  have hnone : ∀ p ∈ s.asyncSrt.async.posted, p.2.method ≠ .close := by
    intro p hp hm
    have := hw.closes p hp hm
    simp [hd] at this
  have hstage : Wired { s with startedToDispose := true, disposal := .closing } :=
    hw.frame rfl (fun _ hx => hx) hw.frames (fun _ => rfl)
  have hframe' := post_frame hstage.invariant (simple_close s.socket) .disposeClose
  obtain ⟨hperm, ⟨ps, hps, hall⟩, hf, ha⟩ := hframe'
  simp only [Prod.mk.injEq] at hf ha
  obtain ⟨hsock, hst, hdisp, _, hstack, _⟩ := hf
  have hcount : ∀ a : Await, _ = (s.awaits ++ [Await.disposeClose]).count a := hperm.count_eq
  refine ⟨by simp [hst, hdisp], Or.inl (ha.2.1.trans hphase), fun _ => ha.2.2.1.trans hstart, ?_,
    ?_, ?_, fun _ => ⟨?_, fun he => hs (hsock.symm.trans he), ?_⟩, by simp [hdisp]⟩
  · simp [hcount, hdisp, List.count_append, hclose]
  · simp [hcount, List.count_append, hasync]
  · simp [hstack, hframe]
  · rw [← List.count_eq_zero, hcount, List.count_append, List.count_eq_zero.mpr hcreate]
    rfl
  · intro p hp hm
    rw [hps] at hp
    rcases List.mem_append.mp hp with hp | hp
    · exact absurd hm (hnone p hp)
    · rw [hall p hp, State.closePost, hsock]
      rfl

theorem step_vacuous (h : Disposing s) (hw : Wired s) (hd : s.startedToDispose = false) :
    Disposing { s with startedToDispose := true }.emitDisposed := by
  obtain ⟨_, hclose, hasync, hframe⟩ := h.not_disposing hd
  obtain ⟨_, hphase⟩ := hw.async_notCalled hd
  refine ⟨by simp [State.emitDisposed, State.emit], Or.inl hphase,
    by simp [State.emitDisposed, State.emit], ?_, ?_, ?_, by simp [State.emitDisposed, State.emit],
    by simp [State.emitDisposed, State.emit]⟩
  · exact hclose.le.trans (Nat.zero_le _)
  · exact hasync.le.trans (Nat.zero_le _)
  · simp [State.emitDisposed, State.emit, hframe]

theorem step_created (h : Disposing s) {v : ReturnValue}
    {rest : List (Await × Except Failure ReturnValue)}
    (hq : s.microtasks = (.create, .ok v) :: rest) :
    Disposing ({ s with microtasks := rest, socket := .ofReply v }.emit .created .created) := by
  have hpop := awaits_pop (t := { s with microtasks := rest, socket := .ofReply v }.emit .created
    .created) hq rfl
  have hno : ¬ (s.disposal = .closing ∨ s.disposal = .disposing) := fun hd =>
    (h.owned hd).1 (hpop ▸ List.mem_cons_self)
  have hclose := h.closeAwait
  have hasync := h.asyncAwait
  rw [hpop] at hclose hasync
  refine { h with
      closeAwait := ?_
      asyncAwait := ?_
      frames := ?_
      owned := fun hd => absurd hd hno
      closed := fun hd => absurd (Or.inr hd) hno }
  · rwa [List.count_cons_of_ne (by decide)] at hclose
  · rwa [List.count_cons_of_ne (by decide)] at hasync
  · show (Frame.created :: s.stack).count _ ≤ _
    rw [List.count_cons_of_ne (by decide)]
    exact h.frames

theorem step_closed (h : Disposing s) (hw : Wired s) {v : ReturnValue}
    {rest : List (Await × Except Failure ReturnValue)}
    (hq : s.microtasks = (.disposeClose, .ok v) :: rest) :
    Disposing { s with microtasks := rest }.disposeAsync := by
  have hpop := awaits_pop (t := { s with microtasks := rest }) hq rfl
  have hclose := h.closeAwait
  have hasync := h.asyncAwait
  have hd := h.closing (hpop ▸ List.mem_cons_self)
  rw [hpop, List.count_cons_self] at hclose
  rw [hpop] at hasync
  have hstart := h.unstarted hd
  obtain ⟨hno, hne, hposts⟩ := h.owned (Or.inl hd)
  have hexec : s.closePost ∈ s.asyncSrt.async.executed.map Prod.fst := by
    obtain ⟨q, hqp, o, hwait, hx, _⟩ := hw.replied (Or.inr hstart) (by simp [Await.method])
      (hq ▸ List.mem_cons_self)
    rw [← hposts q hqp (hw.method_of_waiter hqp hwait rfl)]
    exact List.mem_map.mpr ⟨_, hx, rfl⟩
  have hwp : Wired { s with microtasks := rest } := hw.pop hq
  obtain ⟨hsame, hstarted, hphase⟩ := hwp.dispose_same hstart
  simp only [Prod.mk.injEq] at hsame
  obtain ⟨hp, hx, _, hk⟩ := hsame
  have hnot : s.asyncSrt.async.dispose.disposing ≠ .finished := by
    rcases hphase with hphase | hphase <;> simp [hphase]
  have e : { s with microtasks := rest }.disposeAsync =
      { { s with microtasks := rest }.setAsync s.asyncSrt.async.dispose with
        disposal := .disposing } := by
    simp [State.disposeAsync, State.awaitDisposed, State.setAsync, hstart, hnot]
  have hawaits : { s with microtasks := rest }.disposeAsync.awaits =
      { s with microtasks := rest }.awaits := by
    rw [e]
    simp [State.awaits, State.setAsync, hk]
  have hstartS : s.startedToDispose = true := hw.started (v := v) (by simp [hq])
  rw [e] at hawaits ⊢
  refine ⟨by simp [State.setAsync, hstartS], Or.inr (Or.inr rfl), by simp, ?_, ?_, ?_, ?_, ?_⟩
  · rw [hawaits]
    rw [if_pos hd] at hclose
    exact (Nat.le_of_succ_le_succ hclose).trans (Nat.zero_le _)
  · rw [hawaits]
    simpa [State.setAsync, hnot, hd] using hasync
  · simpa [State.setAsync, hd] using h.frames
  · intro _
    rw [hpop] at hno
    refine ⟨hawaits ▸ fun hmem => hno (List.mem_cons_of_mem _ hmem), hne, ?_⟩
    simpa [State.setAsync, hp, State.closePost] using hposts
  · intro _
    simpa [State.setAsync, hx, State.closePost] using hexec

theorem step_disposed (h : Disposing s) (hs : s.stack = []) {v : ReturnValue}
    {rest : List (Await × Except Failure ReturnValue)}
    (hq : s.microtasks = (.disposeAsync, .ok v) :: rest) :
    Disposing { s with microtasks := rest, socket := .null }.emitDisposed := by
  have hpop := awaits_pop (t := { s with microtasks := rest, socket := .null }.emitDisposed) hq rfl
  have hclose := h.closeAwait
  have hasync := h.asyncAwait
  obtain ⟨hd, hf⟩ := h.exited (hpop ▸ List.mem_cons_self)
  rw [hpop, List.count_cons_self] at hasync
  rw [hpop] at hclose
  have hstart := h.started (by simp [hd])
  refine ⟨by simp [State.emitDisposed, State.emit, hstart], Or.inr (Or.inl hf),
    by simp [State.emitDisposed, State.emit], ?_, ?_, by simp [State.emitDisposed, State.emit, hs],
    by simp [State.emitDisposed, State.emit], by simp [State.emitDisposed, State.emit]⟩
  · rw [List.count_cons_of_ne (by decide), hd] at hclose
    exact hclose.trans (Nat.zero_le _)
  · rw [if_pos ⟨hd, hf⟩] at hasync
    exact (Nat.le_of_succ_le_succ hasync).trans (Nat.zero_le _)

theorem ended (hstart : s.startedToDispose = true)
    (hphase : s.asyncSrt.async.disposing = .notCalled ∨ s.asyncSrt.async.disposing = .finished)
    (he : (t.startedToDispose, t.asyncSrt) = (s.startedToDispose, s.asyncSrt))
    (hdisp : t.disposal = .finished ∨ t.disposal = .failed)
    (hc : t.awaits.count .disposeClose = 0) (ha : t.awaits.count .disposeAsync = 0)
    (hs : t.stack.count .disposed = 0) : Disposing t := by
  simp only [Prod.mk.injEq] at he
  obtain ⟨hst, hasy⟩ := he
  refine ⟨?_, ?_, ?_, hc.le.trans (Nat.zero_le _), ha.le.trans (Nat.zero_le _),
    hs.le.trans (Nat.zero_le _), ?_, ?_⟩
  · rw [hst, hstart]
    rcases hdisp with hd | hd <;> simp [hd]
  · rw [hasy]
    exact hphase.imp_right Or.inl
  · rcases hdisp with hd | hd <;> simp [hd]
  · rcases hdisp with hd | hd <;> simp [hd]
  · rcases hdisp with hd | hd <;> simp [hd]

theorem step_fails (h : Disposing s) (hw : Wired s) {a : Await} {e : Failure}
    (ha : a = .disposeClose ∨ a = .disposeAsync)
    {rest : List (Await × Except Failure ReturnValue)} (hq : s.microtasks = (a, .error e) :: rest) :
    Disposing ({ s with microtasks := rest }.failDispose e) := by
  have hpop := awaits_pop (t := { s with microtasks := rest }.failDispose e) hq rfl
  have hclose := h.closeAwait
  have hasync := h.asyncAwait
  have hframe := h.frames
  have hmem : a ∈ s.awaits := hpop ▸ List.mem_cons_self
  rw [hpop] at hclose hasync
  rcases ha with rfl | rfl
  · have hd := h.closing hmem
    rw [List.count_cons_self] at hclose
    simp only [hd, if_true, reduceCtorEq, false_and, if_false] at hclose hasync hframe
    have hnot := hw.invariant.disposal.started.mp (h.unstarted hd)
    refine ended (h.started (by simp [hd])) (Or.inl hnot) rfl (Or.inr rfl) ?_ ?_ ?_
    · exact Nat.le_zero.mp (Nat.le_of_succ_le_succ hclose)
    · rwa [List.count_cons_of_ne (by decide), Nat.le_zero] at hasync
    · exact Nat.le_zero.mp hframe
  · obtain ⟨hd, hf⟩ := h.exited hmem
    rw [List.count_cons_self] at hasync
    simp only [hd, hf, and_self, if_true, reduceCtorEq, if_false] at hclose hasync hframe
    refine ended (h.started (by simp [hd])) (Or.inr hf) rfl (Or.inr rfl) ?_ ?_ ?_
    · rwa [List.count_cons_of_ne (by decide), Nat.le_zero] at hclose
    · exact Nat.le_zero.mp (Nat.le_of_succ_le_succ hasync)
    · exact Nat.le_zero.mp hframe

theorem step_listeners (h : Disposing s) {rest : List Frame} (hs : s.stack = .disposed :: rest)
    (he : (t.startedToDispose, t.asyncSrt, t.microtasks, t.stack) =
      (s.startedToDispose, s.asyncSrt, s.microtasks, rest))
    (hdisp : t.disposal = .finished ∨ t.disposal = .failed) : Disposing t := by
  simp only [Prod.mk.injEq] at he
  obtain ⟨hst, hasy, hmicro, hstack⟩ := he
  have hframe := h.frames
  have hclose := h.closeAwait
  have hasync := h.asyncAwait
  have hd := h.emitting (hs ▸ List.mem_cons_self)
  rw [hs, List.count_cons_self] at hframe
  simp only [hd, if_true, reduceCtorEq, if_false, false_and] at hframe hclose hasync
  have hawaits : t.awaits = s.awaits := by simp [State.awaits, hasy, hmicro]
  have hphase : s.asyncSrt.async.disposing = .notCalled ∨
      s.asyncSrt.async.disposing = .finished := by
    rcases h.phase with hp | hp | hp
    · exact Or.inl hp
    · exact Or.inr hp
    · simp [hd] at hp
  apply ended (h.started (by simp [hd])) hphase (by simp [hst, hasy]) hdisp
  · rw [hawaits]
    exact Nat.le_zero.mp hclose
  · rw [hawaits]
    exact Nat.le_zero.mp hasync
  · rw [hstack]
    omega

theorem step_phase (h : Disposing s) (async : AsyncSRT Await)
    (hsame : (async.posted, async.executed, async.workCbQueue, async.startedToDispose) =
      (s.asyncSrt.async.posted, s.asyncSrt.async.executed, s.asyncSrt.async.workCbQueue,
        s.asyncSrt.async.startedToDispose))
    (hs : s.asyncSrt.async.disposing = .waiting ∨ s.asyncSrt.async.disposing = .resuming ∨
      s.asyncSrt.async.disposing = .terminating) :
    s.disposal = .disposing ∧ s.awaits.count .disposeAsync = 0 ∧
      (s.setAsync async).awaits = s.awaits ∧ (async.disposing ≠ .notCalled →
        Disposing (s.setAsync async)) := by
  simp only [Prod.mk.injEq] at hsame
  obtain ⟨hp, hx, hk, hst⟩ := hsame
  have hd : s.disposal = .disposing := by
    rcases h.phase with hp | hp | hp
    · rcases hs with hs | hs | hs <;> simp [hs] at hp
    · rcases hs with hs | hs | hs <;> simp [hs] at hp
    · exact hp
  have hnot : s.asyncSrt.async.disposing ≠ .finished := by
    rcases hs with hs | hs | hs <;> simp [hs]
  have hasync := h.asyncAwait
  rw [if_neg fun he => hnot he.2] at hasync
  have hawaits : (s.setAsync async).awaits = s.awaits := by simp [State.awaits, State.setAsync, hk]
  refine ⟨hd, Nat.le_zero.mp hasync, hawaits, fun hne => ?_⟩
  refine ⟨h.notCalled, Or.inr (Or.inr hd), by simp [State.setAsync, hd], hawaits ▸ h.closeAwait,
    ?_, h.frames, ?_, ?_⟩
  · rw [hawaits]
    exact hasync.trans (Nat.zero_le _)
  · simpa [State.setAsync, hp, State.closePost, hawaits, State.awaits, hk] using h.owned
  · simpa [State.setAsync, hx, State.closePost] using h.closed

theorem step_exits (h : Disposing s) (hd : s.asyncSrt.async.disposing = .terminating) (code : ℤ) :
    Disposing ((s.setAsync (AsyncApi.next s.asyncSrt.async (.exited code))).wake .disposeAsync
      (.ok .undefined)) := by
  obtain ⟨hstage, hzero, hawaits, hphase⟩ :=
    h.step_phase (AsyncApi.next s.asyncSrt.async (.exited code)) rfl (Or.inr (Or.inr hd))
  have h' := hphase (by simp [AsyncApi.next])
  have hcount : ∀ a : Await, _ = _ := fun a =>
    (awaits_wake (s.setAsync (AsyncApi.next s.asyncSrt.async (.exited code))) .disposeAsync
      (.ok .undefined)).count_eq a
  rw [hawaits] at hcount
  refine { h' with closeAwait := ?_, asyncAwait := ?_, owned := ?_ }
  · rw [hcount, List.count_append]
    exact h.closeAwait
  · rw [hcount, List.count_append, hzero]
    simp [State.wake, State.setAsync, AsyncApi.next, hstage]
  · intro hdisp
    obtain ⟨hno, hrest⟩ := h'.owned hdisp
    rw [hawaits] at hno
    refine ⟨?_, hrest⟩
    rw [← List.count_eq_zero, hcount, List.count_append, List.count_eq_zero.mpr hno]
    rfl

theorem step {sync : SyncSRT σ ω} {e : Event ω} (h : Disposing s) (hw : Wired s)
    (hc : Case sync s e t) (hs : CreatesSettled s e) : Disposing t := by
  cases hc with
  | moves hm => exact h.moves hm
  | refuses => exact h.frame rfl rfl rfl rfl (fun _ hn => hn) (fun _ hp _ => hp) (fun _ hx => hx)
  | creates _ hd => exact h.step_creates hd
  | closes hm hne hd =>
    obtain ⟨hf, _, hawaits, _⟩ := hm.ordinary
    simp only [Prod.mk.injEq] at hf
    refine (h.moves hm).step_closes hm.wired hne hd ?_
    rw [← List.count_eq_zero, hawaits _ rfl, List.count_eq_zero]
    exact hs (hf.2.1 ▸ hd) (hf.1 ▸ hne)
  | vacuous hm _ hd => exact (h.moves hm).step_vacuous hm.wired hd
  | created hq => exact h.step_created hq
  | closed hq => exact h.step_closed hw hq
  | disposed hst hq => exact h.step_disposed hst hq
  | fails ha hq => exact h.step_fails hw ha hq
  | finishes hst => exact h.step_listeners hst rfl (Or.inl rfl)
  | throws hst => exact h.step_listeners hst rfl (Or.inr rfl)
  | executes hq =>
    refine h.frame rfl rfl rfl rfl (fun _ hn => hn) (fun _ hp _ => hp) fun x hx => ?_
    simp only [AsyncSRT.exec]
    split
    · exact hx
    · exact List.mem_append_left _ hx
  | phase hsame hph ht =>
    refine (h.step_phase _ hsame (hph.imp_right Or.inl)).2.2.2 ?_
    rcases ht with ht | ht | ht <;> simp [ht]
  | exits _ hd => exact h.step_exits hd _
  | env w => exact h.frame rfl rfl rfl rfl (fun _ hn => hn) (fun _ hp _ => hp) (fun _ hx => hx)

end Disposing

end SocketAsync
