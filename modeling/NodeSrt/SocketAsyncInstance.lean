import NodeSrt.AsyncApiProgress
import NodeSrt.SocketAsyncInvariant

/-! # The instance of a socket object

Whatever a socket object does, its AsyncSRT goes through a run of its own: the calls and the
disposal are the object's, and the replies, the polls and the exit of the worker come to both.
What holds of every AsyncSRT holds of the one in the object. -/
namespace SocketAsync

open AsyncValues
open TransitionSystem
open AsyncApi

variable {σ ω : Type*} {sync : SyncSRT σ ω} {p : Config} {s t u : State σ ω}

/-- What happens to the instance is a run of it, in which every call can be traced. -/
def Drives (s t : State σ ω) : Prop :=
  (tracingMachine Await).Execution s.asyncSrt.async t.asyncSrt.async

namespace Drives

theorem of_eq (h : t.asyncSrt.async = s.asyncSrt.async) : Drives s t := by
  unfold Drives
  rw [h]
  exact .refl _

theorem trans (h : Drives s u) (k : Drives u t) : Drives s t := Machine.Execution.trans h k

theorem wakeSettled (s : State σ ω) (a : Await) (r : Settlement) :
    (s.wakeSettled a r).asyncSrt = s.asyncSrt := by
  cases r <;> rfl

theorem post (s : State σ ω) {c : ApiCall} (hc : Simple c) (a : Await) :
    Drives s (s.post c a) := by
  have hcall : (s.post c a).asyncSrt.async =
      AsyncApi.next s.asyncSrt.async (.call c false a) := by
    unfold State.post
    dsimp only
    split
    · rw [wakeSettled]
      rfl
    all_goals rfl
  unfold Drives
  rw [hcall]
  exact Machine.Execution.step (e := AsyncApi.Event.call c false a) ⟨trivial, hc.traces _⟩

theorem pollEvents (s : State σ ω) : Drives s s.pollEvents := by
  unfold State.pollEvents
  split
  · exact of_eq rfl
  · exact post s (simple_epollUWait _ _) _

theorem unlessFailed {v : ReturnValue} {e : SocketError} (h : Drives s t) :
    Drives s (s.unlessFailed v e t) := by
  unfold State.unlessFailed
  split
  · exact of_eq rfl
  · exact h

theorem create (s : State σ ω) : Drives s s.create := by
  unfold State.create
  dsimp only
  split
  · exact of_eq rfl
  split
  · exact of_eq rfl
  · exact post { s with createCalls := s.createCalls + 1 } simple_createSocket _

theorem dispose (s : State σ ω) : Drives s (s.dispose p) := by
  have hclear : Drives s (if p.kind = .server then s.clearTimers else s) := by
    split <;> exact of_eq rfl
  unfold State.dispose
  dsimp only
  generalize (if p.kind = .server then s.clearTimers else s) = u at hclear ⊢
  apply hclear.trans
  split
  · exact of_eq rfl
  split
  · exact post { u with startedToDispose := true, disposal := .closing } (simple_close _) _
  · exact of_eq rfl

theorem openSocket (s : State σ ω) : Drives s (s.openSocket p) := by
  unfold State.openSocket State.doOpen
  split
  · exact of_eq rfl
  split
  · exact of_eq rfl
  split
  · exact post s (simple_bind _ _ _) _
  · split
    · exact of_eq rfl
    · exact post s (simple_connect _ _ _) _

theorem awaitDisposed (s : State σ ω) (started : Bool) : Drives s (s.awaitDisposed started) := by
  unfold State.awaitDisposed
  split <;> exact of_eq rfl

theorem disposeAsync (s : State σ ω) : Drives s s.disposeAsync := by
  have hset : Drives s { s.setAsync s.asyncSrt.async.dispose with disposal := .disposing } :=
    Machine.Execution.step (e := AsyncApi.Event.dispose) ⟨trivial, trivial⟩
  exact hset.trans (awaitDisposed _ _)

theorem resumeOpen (s : State σ ω) (v : ReturnValue) (step : OpenStep) :
    Drives s (s.resumeOpen v step) := by
  cases step with
  | bind => exact unlessFailed (post s (simple_listen _ _) _)
  | listen => exact unlessFailed (post s simple_epollCreate _)
  | epollCreate | connect => exact unlessFailed (of_eq rfl)
  | epollAddUsock => exact pollEvents s

theorem closeConnection (s : State σ ω) (c : ℕ) (caller : CloseCaller) :
    Drives s (s.closeConnection c caller) := by
  unfold State.closeConnection
  dsimp only
  split
  · exact of_eq rfl
  split
  · cases caller <;> exact of_eq rfl
  · exact of_eq rfl

theorem handleEvents (s : State σ ω) (events : List SRTEpollResult) :
    Drives s (events.foldl State.handleEvent s) := by
  induction events generalizing s with
  | nil => exact of_eq rfl
  | cons event events ih => exact (post s (simple_getSockState _) _).trans (ih (s.handleEvent event))

theorem onEvents (s : State σ ω) (v : ReturnValue) : Drives s (s.onEvents v) := by
  unfold State.onEvents
  split
  · exact handleEvents s _
  · exact of_eq rfl

theorem onStatus (s : State σ ω) (event : SRTEpollResult) (status : ReturnValue) :
    Drives s (s.onStatus event status) := by
  unfold State.onStatus
  split
  · split
    · exact post s (simple_accept _ _) _
    · exact of_eq rfl
  split
  · split
    · exact closeConnection s _ _
    · exact of_eq rfl
  · split <;> exact of_eq rfl

theorem resume (s : State σ ω) (a : Await) (r : Except Failure ReturnValue) :
    Drives s (s.resume a r) := by
  cases r with
  | error e =>
    cases a with
    | closing c caller => cases caller <;> exact of_eq rfl
    | create | disposeClose | disposeAsync | opening | epollUWait | handling => exact of_eq rfl
  | ok v =>
    cases a with
    | create | disposeAsync | closing => exact of_eq rfl
    | disposeClose => exact disposeAsync s
    | opening step => exact resumeOpen s v step
    | epollUWait => exact onEvents s v
    | handling step =>
      cases step with
      | getSockState event => exact onStatus s event v
      | accept => exact post s (simple_epollAddUsock _ _ _) _
      | epollAddUsock | close => exact of_eq rfl

theorem afterListeners (s : State σ ω) {f : Frame} (hf : f.isClosing = false) :
    Drives s (s.afterListeners f) := by
  cases f with
  | opened => exact post s (simple_epollAddUsock _ _ _) _
  | closing | closed => cases hf
  | created | connection | disconnection | disposed | data => exact of_eq rfl

theorem listenerThrew (s : State σ ω) (f : Frame) : Drives s (s.listenerThrew f) := by
  cases f with
  | closing c caller | closed c caller v => cases caller <;> exact of_eq rfl
  | created | opened | connection | disconnection | disposed | data => exact of_eq rfl

theorem deliver (h : s.asyncSrt.async.running = none) (hm : s.asyncSrt.async.toMain ≠ []) :
    Drives s s.deliver := by
  have hset : Drives s (s.setAsync (AsyncApi.next s.asyncSrt.async .deliver)) :=
    Machine.Execution.step (e := AsyncApi.Event.deliver) ⟨⟨hm, h⟩, trivial⟩
  unfold State.deliver
  dsimp only
  split
  · exact hset.trans (of_eq (congrArg Backed.async (wakeSettled _ _ _)))
  · exact hset

theorem exec (h : s.asyncSrt.async.toWorker ≠ [] ∧ s.asyncSrt.async.disposing ≠ .finished) :
    Drives s (next sync p s .exec) := by
  have hrun : ∀ o, (tracingMachine Await).Execution s.asyncSrt.async
      (AsyncApi.next s.asyncSrt.async (.exec o)) := fun o =>
    Machine.Execution.step (e := AsyncApi.Event.exec o) ⟨h, trivial⟩
  obtain ⟨data, rest, hq⟩ := List.exists_cons_of_ne_nil h.1
  simp only [Drives, next, backedMachine, hq, Backed.exec]
  split <;> exact hrun _

theorem step {e : Event ω} (hw : Wired s) (he : Enabled s e) :
    Drives s (next sync p s e) := by
  cases e with
  | create => exact create s
  | opening => exact openSocket s
  | dispose => exact dispose s
  | closeConnection c => exact closeConnection s c .user
  | listenerReturn threw =>
    obtain ⟨f, rest, hq⟩ := List.exists_cons_of_ne_nil he
    simp only [next, hq]
    split
    · exact listenerThrew { s with stack := rest } f
    · exact afterListeners { s with stack := rest } (hw.frames f (hq ▸ List.mem_cons_self))
  | resume =>
    obtain ⟨⟨a, r⟩, rest, hq⟩ := List.exists_cons_of_ne_nil he.2
    simp only [next, hq]
    exact resume { s with microtasks := rest } a r
  | resumeDispose =>
    have hset : Drives s (s.setAsync s.asyncSrt.async.terminateWorker) :=
      Machine.Execution.step (e := AsyncApi.Event.resumeDispose) ⟨⟨he.2, hw.running⟩, trivial⟩
    exact hset.trans (awaitDisposed _ _)
  | exec => exact exec he
  | deliver => exact deliver hw.running he.2
  | pollTimer => exact pollEvents { s with pollEventsTimer := false }
  | pollDispose =>
    exact Machine.Execution.step (e := AsyncApi.Event.pollDispose) ⟨⟨he.2, hw.running⟩, trivial⟩
  | exited code =>
    have hset : Drives s (s.setAsync (AsyncApi.next s.asyncSrt.async (.exited code))) :=
      Machine.Execution.step (e := AsyncApi.Event.exited code) ⟨⟨he.2, hw.running⟩, trivial⟩
    exact hset.trans (awaitDisposed _ _)
  | env w => exact of_eq rfl

end Drives

/-- The instance of an object is always one that an AsyncSRT of its own could be. -/
theorem execution_instance {n : σ} (h : (machine sync p).Execution (initial n) s) :
    Wired s ∧ (tracingMachine Await).Execution AsyncApi.initial s.asyncSrt.async :=
  h.invariant (I := fun s => Wired s ∧
      (tracingMachine Await).Execution AsyncApi.initial s.asyncSrt.async)
    ⟨initial_wired n, .refl _⟩ fun _ _ ⟨hw, hr⟩ he =>
    ⟨step_wired hw he, hr.trans (Drives.step hw he)⟩

end SocketAsync
