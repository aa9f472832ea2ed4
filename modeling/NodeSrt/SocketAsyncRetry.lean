import NodeSrt.SocketAsyncRelease

/-! # A disposal whose native close fails

The worker turns the exception of `srt_close` into the reply `SRT_ERROR`, which `dispose`
awaits and does not look at. It goes on to terminate the worker, and its latch stays set. -/
namespace SocketAsync

open AsyncValues
open TransitionSystem
open AsyncApi
open NativeSrt

variable {σ ω : Type*} {sync : SyncSRT σ ω} {p : Config} {s t : State σ ω}

/-- The first `dispose` finds a created socket. -/
def DisposesSocket (s : State σ ω) : Event ω → Prop
  | .dispose => s.startedToDispose = false → s.socket ≠ .null
  | _ => True

instance (s : State σ ω) : (e : Event ω) → Decidable (DisposesSocket s e)
  | .dispose => inferInstanceAs (Decidable (s.startedToDispose = false → s.socket ≠ .null))
  | .create | .opening | .closeConnection _ | .listenerReturn _ | .resume | .resumeDispose
  | .exec | .deliver | .pollTimer | .pollDispose | .exited _ | .env _ => isTrue trivial

def State.lastClose (s : State σ ω) : Option Outcome :=
  ((s.asyncSrt.async.executed.filter (·.1.method = .close)).getLast?).map Prod.snd

def CloseFailed (s : State σ ω) : Prop :=
  ∃ o, s.lastClose = some o ∧ resultOf o = .number SRT_ERROR

/-- What the comment on `dispose` promises. A failure leaves the call waiting for the reply,
or rejected; the listeners are removed when the call has finished. -/
structure RetriesDispose (p : Config) (s : State σ ω) : Prop where
  rejects : CloseFailed s → s.disposal = .closing ∨ s.disposal = .failed
  keeps : CloseFailed s → s.socket ≠ .null ∧ .disposed ∉ s.log
  retries : CloseFailed s → s.disposal = .failed →
    ∃ q, (s.dispose p).asyncSrt.async.posted = s.asyncSrt.async.posted ++ [q] ∧ q.2 = s.closePost
  fulfils : s.disposal = .finished → s.socket = .null →
    ∃ o, s.lastClose = some o ∧ resultOf o ≠ .number SRT_ERROR

def State.pastClose (s : State σ ω) : Prop :=
  s.disposal = .finished ∨ .disposeAsync ∈ s.awaits ∨ .disposed ∈ s.stack ∨ .disposed ∈ s.log

structure Latched (s : State σ ω) : Prop where
  closing : s.disposal = .closing → s.socket ≠ .null ∧ s.asyncSrt.async.startedToDispose = false
  called : s.disposal ≠ .notCalled ∨ .disposeClose ∈ s.awaits → s.startedToDispose = true
  passed : s.pastClose → s.asyncSrt.async.startedToDispose = true
  closed : s.asyncSrt.async.startedToDispose = true → s.closedNative

theorem initial_latched (n : σ) : Latched (initial n : State σ ω) := by
  constructor <;> simp [initial, Backed.initial, AsyncApi.initial, State.awaits, State.pastClose]

theorem lastClose_of_closedNative (h : s.closedNative) : ∃ o, s.lastClose = some o := by
  obtain ⟨x, hx, hm⟩ := h
  have hmem : x ∈ s.asyncSrt.async.executed.filter (·.1.method = .close) :=
    List.mem_filter.mpr ⟨hx, by simpa using hm⟩
  have hne := List.ne_nil_of_mem hmem
  exact ⟨_, by rw [State.lastClose, List.getLast?_eq_some_getLast hne]; rfl⟩

namespace Latched

theorem frame (h : Latched s)
    (he : (t.disposal, t.startedToDispose, t.asyncSrt.async.startedToDispose) =
      (s.disposal, s.startedToDispose, s.asyncSrt.async.startedToDispose))
    (hs : s.socket ≠ .null → t.socket ≠ .null)
    (ha : ∀ a : Await, a = .disposeClose ∨ a = .disposeAsync → a ∈ t.awaits → a ∈ s.awaits)
    (hstack : .disposed ∈ t.stack → .disposed ∈ s.stack)
    (hlog : .disposed ∈ t.log → .disposed ∈ s.log)
    (hx : ∀ x ∈ s.asyncSrt.async.executed, x ∈ t.asyncSrt.async.executed) : Latched t := by
  simp only [Prod.mk.injEq] at he
  obtain ⟨hd, hst, hasync⟩ := he
  have hpast : t.pastClose → s.pastClose := by
    rintro (hp | hp | hp | hp)
    · exact Or.inl (hd ▸ hp)
    · exact Or.inr (Or.inl (ha _ (Or.inr rfl) hp))
    · exact Or.inr (Or.inr (Or.inl (hstack hp)))
    · exact Or.inr (Or.inr (Or.inr (hlog hp)))
  refine ⟨?_, ?_, ?_, ?_⟩
  · rw [hd, hasync]
    exact fun hcl => ⟨hs (h.closing hcl).1, (h.closing hcl).2⟩
  · rw [hd, hst]
    exact fun hc => h.called (hc.imp_right (ha _ (Or.inl rfl)))
  · rw [hasync]
    exact fun hp => h.passed (hpast hp)
  · rw [hasync]
    intro hstart
    obtain ⟨x, hmem, hm⟩ := h.closed hstart
    exact ⟨x, hx x hmem, hm⟩

theorem after (hd : t.disposal ≠ .closing) (hs : t.startedToDispose = true)
    (ha : t.asyncSrt.async.startedToDispose = true) (hx : t.closedNative) : Latched t :=
  ⟨fun hcl => absurd hcl hd, fun _ => hs, fun _ => ha, fun _ => hx⟩

theorem moves (h : Latched s) (hm : Moves s t) : Latched t := by
  obtain ⟨hf, ha, hawaits, _, ⟨l, hlog, hno⟩, hstack, _⟩ := hm.ordinary
  simp only [Prod.mk.injEq] at hf ha
  apply h.frame (by simp [hf, ha]) (fun hs => hf.1 ▸ hs)
  · intro a ho
    have hown : a.owning = true := by rcases ho with rfl | rfl <;> rfl
    rw [← List.count_pos_iff, hawaits a hown, List.count_pos_iff]
    exact id
  · rw [← List.count_pos_iff, hstack, List.count_pos_iff]
    exact id
  · rw [hlog]
    exact fun hmem => (List.mem_append.mp hmem).resolve_right hno
  · rw [ha.1]
    exact fun _ hx => hx

theorem step_closes (h : Latched s) (hw : Wired s) (hs : s.socket ≠ .null)
    (hd : s.startedToDispose = false) :
    Latched ({ s with startedToDispose := true, disposal := .closing }.post
      (.close s.socket.toValue) .disposeClose) := by
  obtain ⟨hstart, _⟩ := hw.async_notCalled hd
  have hno : ¬ s.pastClose := fun hp => by
    have := h.passed hp
    simp [hstart] at this
  have hstage : Wired { s with startedToDispose := true, disposal := .closing } :=
    hw.frame rfl (fun _ hx => hx) hw.frames (fun _ => rfl)
  obtain ⟨hperm, _, hf, ha⟩ := post_frame hstage.invariant (simple_close s.socket) .disposeClose
  simp only [Prod.mk.injEq] at hf ha
  obtain ⟨hsock, hst, hdisp, _, hstack, hlog, _, _⟩ := hf
  have hasync := ha.2.2.1.trans hstart
  refine ⟨fun _ => ⟨fun he => hs (hsock.symm.trans he), hasync⟩, fun _ => hst, ?_, ?_⟩
  · rw [State.pastClose, hperm.mem_iff, hstack, hlog, hdisp]
    rintro (hp | hp | hp | hp)
    · cases hp
    · refine absurd (Or.inr (Or.inl ?_)) hno
      simpa [State.awaits] using hp
    · exact absurd (Or.inr (Or.inr (Or.inl hp))) hno
    · exact absurd (Or.inr (Or.inr (Or.inr hp))) hno
  · rw [hasync]
    exact fun he => by cases he

theorem step_closed (h : Latched s) (hw : Wired s) {v : ReturnValue}
    {rest : List (Await × Except Failure ReturnValue)}
    (hq : s.microtasks = (.disposeClose, .ok v) :: rest) :
    Latched { s with microtasks := rest }.disposeAsync := by
  have hwp : Wired { s with microtasks := rest } := hw.pop hq
  have hclosed : s.closedNative := by
    rcases hw.origin (.disposeClose, .ok v) (by simp [hq]) with
      hn | ⟨w, _, q, hmem, o, hwait, hx, _⟩ | ⟨_, hstart⟩
    · cases hn
    · exact ⟨_, hx, hw.method_of_waiter hmem hwait rfl⟩
    · exact h.closed (hstart v rfl)
  have hf := hwp.disposeAsync_frame.1
  simp only [Prod.mk.injEq] at hf
  have hstart : { s with microtasks := rest }.disposeAsync.asyncSrt.async.startedToDispose =
      true := by
    have e : s.asyncSrt.async.dispose.startedToDispose = true := by
      cases hd : s.asyncSrt.async.startedToDispose with
      | true => simp [AsyncSRT.dispose, hd]
      | false => exact (hw.dispose_same hd).2.1
    simp only [State.disposeAsync, State.awaitDisposed]
    split <;> simpa [State.wake, State.setAsync] using e
  refine after ?_ (hf.2.1.trans (hw.started (v := v) (by simp [hq]))) hstart ?_
  · simp only [State.disposeAsync, State.awaitDisposed]
    split <;> simp [State.wake, State.setAsync]
  · rw [State.closedNative, hf.2.2.2.2.2.2.2.2]
    exact hclosed

theorem step_fails (h : Latched s) (hw : Wired s) {a : Await} {e : Failure}
    (ha : a = .disposeClose ∨ a = .disposeAsync)
    {rest : List (Await × Except Failure ReturnValue)} (hq : s.microtasks = (a, .error e) :: rest) :
    Latched ({ s with microtasks := rest }.failDispose e) := by
  have hpop := awaits_pop (t := { s with microtasks := rest }.failDispose e) hq rfl
  have hmem : a ∈ s.awaits := hpop ▸ List.mem_cons_self
  have hstart : s.startedToDispose = true := by
    rcases ha with rfl | rfl
    · exact h.called (Or.inr hmem)
    · exact hw.disposing (h.passed (Or.inr (Or.inl hmem)))
  refine ⟨fun hcl => (by cases hcl), fun _ => hstart, fun hp => h.passed ?_, h.closed⟩
  rcases hp with hp | hp | hp | hp
  · cases hp
  · exact Or.inr (Or.inl (hpop ▸ List.mem_cons_of_mem _ hp))
  · exact Or.inr (Or.inr (Or.inl hp))
  · exact Or.inr (Or.inr (Or.inr hp))

theorem step_listeners (h : Latched s) (hw : Wired s) (hs : .disposed ∈ s.stack)
    (he : (t.startedToDispose, t.asyncSrt) = (s.startedToDispose, s.asyncSrt))
    (hd : t.disposal = .finished ∨ t.disposal = .failed) : Latched t := by
  simp only [Prod.mk.injEq] at he
  have hstart := h.passed (Or.inr (Or.inr (Or.inl hs)))
  refine after ?_ (he.1.trans (hw.disposing hstart)) (he.2 ▸ hstart) ?_
  · rcases hd with hd | hd <;> simp [hd]
  · rw [State.closedNative, he.2]
    exact h.closed hstart

theorem step_exits (h : Latched s) (hw : Wired s)
    (hd : s.asyncSrt.async.disposing = .terminating) (code : ℤ) :
    Latched ((s.setAsync (AsyncApi.next s.asyncSrt.async (.exited code))).wake .disposeAsync
      (.ok .undefined)) := by
  have hstart : s.asyncSrt.async.startedToDispose = true := by
    by_contra hf
    have := hw.invariant.disposal.started.mp (by simpa using hf)
    simp [hd] at this
  refine after (fun hcl => ?_) (hw.disposing hstart) hstart (h.closed hstart)
  have := (h.closing hcl).2
  simp [hstart] at this

theorem step {e : Event ω} (h : Latched s) (hw : Wired s) (hc : Case sync s e t)
    (hs : DisposesSocket s e) : Latched t := by
  cases hc with
  | moves hm => exact h.moves hm
  | refuses => exact h.frame rfl id (fun _ _ ha => ha) id id fun _ hx => hx
  | creates =>
    refine h.frame rfl id (fun a ho ha => ?_) id id fun _ hx => hx
    have hne : a ≠ .create := by rcases ho with rfl | rfl <;> simp
    rw [awaits_accept] at ha
    exact (List.mem_append.mp ha).resolve_right (by simpa using hne)
  | closes hm hne hd => exact (h.moves hm).step_closes hm.wired hne hd
  | vacuous hm hnull hd =>
    have hf := hm.ordinary.fields
    simp only [Prod.mk.injEq] at hf
    exact absurd (hf.1.symm.trans hnull) (hs (hf.2.1.symm.trans hd))
  | @created rest v hq =>
    have hpop := awaits_pop (t := { s with microtasks := rest, socket := .ofReply v }.emit .created
      .created) hq rfl
    refine h.frame rfl (fun _ => ?_) (fun a _ ha => hpop ▸ List.mem_cons_of_mem _ ha) ?_ ?_
      fun _ hx => hx
    · show Slot.ofReply v ≠ .null
      unfold Slot.ofReply
      split <;> simp
    · simp [State.emit]
    · simp [State.emit]
  | closed hq => exact h.step_closed hw hq
  | disposed _ hq =>
    have hmem : .disposeAsync ∈ s.awaits := List.mem_append_left _ (by simp [hq])
    have hstart := h.passed (Or.inr (Or.inl hmem))
    exact after (by simp [State.emitDisposed, State.emit]) (hw.disposing hstart) hstart
      (h.closed hstart)
  | fails ha hq => exact h.step_fails hw ha hq
  | finishes hst => exact h.step_listeners hw (hst ▸ List.mem_cons_self) rfl (Or.inl rfl)
  | throws hst => exact h.step_listeners hw (hst ▸ List.mem_cons_self) rfl (Or.inr rfl)
  | executes hq =>
    refine h.frame rfl id (fun _ _ ha => ha) id id fun x hx => ?_
    · simp only [AsyncSRT.exec]
      split
      · exact hx
      · exact List.mem_append_left _ hx
  | @phase _ async hsame hph ht =>
    simp only [Prod.mk.injEq] at hsame
    obtain ⟨_, hx, hk, hst⟩ := hsame
    have hawaits : (s.setAsync async).awaits = s.awaits := by
      simp [State.awaits, State.setAsync, hk]
    refine h.frame (by simp [State.setAsync, hst]) id (fun _ _ ha => hawaits ▸ ha) id id ?_
    simp [State.setAsync, hx]
  | exits _ hd => exact h.step_exits hw hd _
  | env w => exact h.frame rfl id (fun _ _ ha => ha) id id fun _ hx => hx

end Latched

theorem execution_latched {n : σ}
    (h : ((machine sync p).restrict DisposesSocket).Execution (initial n) s) :
    Wired s ∧ Latched s := by
  refine h.invariant (I := fun s => Wired s ∧ Latched s) ⟨initial_wired n, initial_latched n⟩
    fun u e hu he => ?_
  obtain ⟨hw, hc⟩ := step_cases hu.1 he.1
  exact ⟨hw, hu.2.step hu.1 hc he.2⟩

/-- The latch: a call of `dispose` after the first one posts nothing. -/
theorem dispose_of_started (hs : s.startedToDispose = true) :
    (s.dispose p).asyncSrt.async.posted = s.asyncSrt.async.posted := by
  by_cases hk : p.kind = .server <;> simp [State.dispose, hk, State.clearTimers, hs, State.ret]

/-- In every run that disposes of created sockets, the promise is kept exactly as long as no
native close that `dispose` has gone on after has failed. -/
theorem retries_dispose_iff {n : σ}
    (h : ((machine sync p).restrict DisposesSocket).Execution (initial n) s) :
    RetriesDispose p s ↔ (CloseFailed s → s.disposal = .closing) := by
  obtain ⟨hw, hl⟩ := execution_latched h
  constructor
  · intro hr hfail
    rcases hr.rejects hfail with hd | hd
    · exact hd
    · obtain ⟨q, hpost, -⟩ := hr.retries hfail hd
      rw [dispose_of_started (hl.called (Or.inl (by simp [hd])))] at hpost
      simp at hpost
  · intro hc
    refine ⟨fun hfail => Or.inl (hc hfail), fun hfail => ?_, fun hfail hd => ?_, fun hd _ => ?_⟩
    · obtain ⟨hsock, hstart⟩ := hl.closing (hc hfail)
      refine ⟨hsock, fun hmem => ?_⟩
      have := hl.passed (Or.inr (Or.inr (Or.inr hmem)))
      simp [hstart] at this
    · have := hc hfail
      simp [hd] at this
    · obtain ⟨o, ho⟩ := lastClose_of_closedNative (hl.closed (hl.passed (Or.inl hd)))
      refine ⟨o, ho, fun hfail => ?_⟩
      have := hc ⟨o, ho, hfail⟩
      simp [hd] at this

theorem retries_dispose_iff_closed :
    let s := serverMachine.runTrace (initial .empty) (createRun ++ disposeRun)
    s.disposal = .finished ∧
      (RetriesDispose localServer s ↔ (CloseFailed s → s.disposal = .closing)) := by
  intro s
  have h : (serverMachine.restrict DisposesSocket).Execution (initial .empty) _ :=
    Machine.execution_of_trace _ _ (createRun ++ disposeRun) (by decide)
  rw [Machine.runTrace_restrict] at h
  exact ⟨by decide, retries_dispose_iff h⟩

/-- The table, with an `srt_close` that fails. -/
def refusingClose : Libsrt Table TableEvent :=
  { tableLibsrt with
    run := fun t c =>
      match c with
      | .close _ => (t, ⟨SRT_ERROR, []⟩)
      | c => t.run c }

/-- The close fails, `dispose` is fulfilled and says that it has disposed. -/
theorem failed_dispose_finishes :
    ¬ ∀ (sync : SyncSRT Table TableEvent) (s : State Table TableEvent),
      ((machine sync localServer).restrict DisposesSocket).Execution (initial .empty) s →
      RetriesDispose localServer s := by
  intro h
  have hr := ((machine (nodeSRT refusingClose) localServer).restrict
    DisposesSocket).execution_of_trace (initial .empty) (createRun ++ disposeRun) (by decide)
  rw [Machine.runTrace_restrict] at hr
  have hfail : CloseFailed ((machine (nodeSRT refusingClose) localServer).runTrace
      (initial .empty) (createRun ++ disposeRun)) :=
    ⟨.error ⟨ascii "Operation not supported"⟩, by decide, rfl⟩
  rcases (h _ _ hr).rejects hfail with hd | hd
  · exact absurd hd (by decide)
  · exact absurd hd (by decide)

end SocketAsync
