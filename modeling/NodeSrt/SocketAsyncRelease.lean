import NodeSrt.SocketAsyncOwnership

/-! # What a finished disposal has released

`dispose` closes the socket it finds in the field, and terminates the worker only if it
finds one. Nothing is left behind in the runs in which the first `dispose` comes when the
field holds the only open socket of the object and no `create` is in flight. -/
namespace SocketAsync

open AsyncValues
open TransitionSystem
open AsyncApi
open NativeSrt

variable {σ ω : Type*} {lib : Libsrt σ ω} {p : Config} {s t : State σ ω}

/-- The worker was terminated, the field is `null`, no socket created for the object is open,
and `disposed` was the last event. -/
structure Released (lib : Libsrt σ ω) (s : State σ ω) : Prop where
  terminated : s.asyncSrt.async.worker = false ∧ s.asyncSrt.async.terminations.length = 1
  socket : s.socket = .null
  closed : ∀ u ∈ s.created, ¬ lib.Open s.asyncSrt.native u
  silent : ∃ l, s.log = l ++ [.disposed] ∧ .disposed ∉ l

/-- The first `dispose` finds a socket, no `create` in flight, and no other open socket. -/
def DisposesOwned (lib : Libsrt σ ω) (s : State σ ω) : Event ω → Prop
  | .dispose => s.startedToDispose = false → s.socket ≠ .null ∧ .create ∉ s.awaits ∧
      ∀ u ∈ s.created, s.socket = .number u ∨ ¬ lib.Open s.asyncSrt.native u
  | _ => True

instance (lib : Libsrt σ ω) (s : State σ ω) : (e : Event ω) → Decidable (DisposesOwned lib s e)
  | .dispose => inferInstanceAs (Decidable (s.startedToDispose = false → s.socket ≠ .null ∧
      Await.create ∉ s.awaits ∧ ∀ u ∈ s.created, s.socket = .number u ∨
        ¬ lib.Open s.asyncSrt.native u))
  | .create | .opening | .closeConnection _ | .listenerReturn _ | .resume | .resumeDispose
  | .exec | .deliver | .pollTimer | .pollDispose | .exited _ | .env _ => isTrue trivial

def State.closedNative (s : State σ ω) : Prop :=
  ∃ x ∈ s.asyncSrt.async.executed, x.1.method = .close

inductive Ending (s : State σ ω) : Prop
  | exited (hd : s.disposal = .disposing) (ha : s.awaits = [.disposeAsync]) (hs : s.stack = [])
  | emitted (hd : s.disposal = .emitting ∧ s.stack = [.disposed] ∨
      s.disposal = .finished ∧ s.stack = []) (ha : s.awaits = []) (hn : s.socket = .null)
      (hl : ∃ l, s.log = l ++ [.disposed] ∧ .disposed ∉ l)
  | failed (hd : s.disposal = .failed) (ha : s.awaits = []) (hs : s.stack = [])

structure Releasing (lib : Libsrt σ ω) (s : State σ ω) : Prop where
  handedOut : ∀ u ∈ s.created, lib.handedOut s.asyncSrt.native u
  settled : s.startedToDispose = true → .create ∉ s.awaits
  owned : s.disposal = .closing → ∀ u ∈ s.created,
    s.socket = .number u ∨ ¬ lib.Open s.asyncSrt.native u
  ended : s.closedNative → s.startedToDispose = true ∧
    ∀ u ∈ s.created, ¬ lib.Open s.asyncSrt.native u
  silent : s.disposal = .notCalled ∨ s.disposal = .closing ∨ s.disposal = .disposing →
    .disposed ∉ s.log
  emitted : s.disposal = .emitting ∨ s.disposal = .finished →
    s.asyncSrt.async.disposing = .finished ∧ s.closedNative
  ending : s.asyncSrt.async.disposing = .finished → Ending s

theorem initial_releasing (lib : Libsrt σ ω) (n : σ) : Releasing lib (initial n : State σ ω) := by
  constructor <;> simp [initial, Backed.initial, AsyncApi.initial, State.awaits, State.created,
    State.closedNative]

namespace Releasing

theorem early (h : Releasing lib s)
    (he : (t.disposal, t.startedToDispose, t.asyncSrt.native, t.asyncSrt.async.executed) =
      (s.disposal, s.startedToDispose, s.asyncSrt.native, s.asyncSrt.async.executed))
    (hf : s.asyncSrt.async.disposing ≠ .finished) (hf' : t.asyncSrt.async.disposing ≠ .finished)
    (hc : s.startedToDispose = true → .create ∉ t.awaits)
    (hs : s.disposal = .closing → t.socket = s.socket)
    (hl : ∃ l, t.log = s.log ++ l ∧ .disposed ∉ l) : Releasing lib t := by
  simp only [Prod.mk.injEq] at he
  obtain ⟨hd, hst, hn, hx⟩ := he
  have hcreated : t.created = s.created := by simp [State.created, hx]
  have hclosed : t.closedNative ↔ s.closedNative := by simp [State.closedNative, hx]
  obtain ⟨l, hl, hno⟩ := hl
  refine ⟨?_, ?_, ?_, ?_, ?_, ?_, ?_⟩
  · rw [hcreated, hn]
    exact h.handedOut
  · rw [hst]
    exact hc
  · rw [hd, hcreated, hn]
    intro hdis
    rw [hs hdis]
    exact h.owned hdis
  · rw [hclosed, hst, hcreated, hn]
    exact h.ended
  · rw [hd, hl]
    intro hdis hmem
    exact (List.mem_append.mp hmem).elim (h.silent hdis) hno
  · rw [hd]
    exact fun hdis => absurd (h.emitted hdis).1 hf
  · exact fun he => absurd he hf'

theorem moves (h : Releasing lib s) (hm : Moves s t)
    (hf : s.asyncSrt.async.disposing ≠ .finished) : Releasing lib t := by
  obtain ⟨hfields, ha, hawaits, _, hlog, _, _⟩ := hm.ordinary
  simp only [Prod.mk.injEq] at hfields ha
  refine h.early (by simp [hfields, ha]) hf (by rwa [ha.2.1]) ?_ (fun _ => hfields.1) hlog
  intro hs
  rw [← List.count_eq_zero, hawaits _ rfl, List.count_eq_zero]
  exact h.settled hs

theorem step_closes (h : Releasing lib s) (hw : Wired s) (hdis : Disposing s)
    (hd : s.startedToDispose = false) (hc : .create ∉ s.awaits)
    (ho : ∀ u ∈ s.created, s.socket = .number u ∨ ¬ lib.Open s.asyncSrt.native u) :
    Releasing lib ({ s with startedToDispose := true, disposal := .closing }.post
      (.close s.socket.toValue) .disposeClose) := by
  obtain ⟨_, hphase⟩ := hw.async_notCalled hd
  have hpost := post_frame (s := { s with startedToDispose := true, disposal := .closing })
    hw.invariant (simple_close s.socket) .disposeClose
  obtain ⟨hperm, _, hf, ha⟩ := hpost
  simp only [Prod.mk.injEq] at hf ha
  obtain ⟨hsock, hst, hdisp, _, _, hlog, _, hn⟩ := hf
  obtain ⟨hx, hph, _, _⟩ := ha
  have hnotC : ¬ s.closedNative := fun hclosed => by
    have := (h.ended hclosed).1
    simp [hd] at this
  refine ⟨?_, ?_, ?_, ?_, ?_, by simp [hdisp], by simp [hph, hphase]⟩
  · rw [State.created, hx, hn]
    exact h.handedOut
  · intro _ hmem
    rcases List.mem_append.mp (hperm.mem_iff.mp hmem) with hmem | hmem
    · exact hc hmem
    · simp at hmem
  · intro _
    rw [State.created, hx, hn, hsock]
    exact ho
  · rw [State.closedNative, hx]
    exact fun hclosed => absurd hclosed hnotC
  · rw [hlog]
    intro _
    exact h.silent (Or.inl (hdis.notCalled.mp hd))

theorem step_closed (h : Releasing lib s) (hw : Wired s) (hdis : Disposing s) {v : ReturnValue}
    {rest : List (Await × Except Failure ReturnValue)}
    (hq : s.microtasks = (.disposeClose, .ok v) :: rest) :
    Releasing lib { s with microtasks := rest }.disposeAsync := by
  have hwp : Wired { s with microtasks := rest } := hw.pop hq
  have hpop := awaits_pop (t := { s with microtasks := rest }) hq rfl
  have hd := hdis.closing (hpop ▸ List.mem_cons_self)
  obtain ⟨hf, hcount, hnot⟩ := hwp.disposeAsync_frame
  have hstage : { s with microtasks := rest }.disposeAsync.disposal = .disposing := by
    simp only [State.disposeAsync, State.awaitDisposed]
    split <;> rfl
  simp only [Prod.mk.injEq] at hf
  obtain ⟨_, hst, _, hlog, _, _, hn, _, hx⟩ := hf
  refine ⟨?_, ?_, by simp [hstage], ?_, ?_, by simp [hstage],
    fun he => absurd he (hnot (hdis.unstarted hd))⟩
  · rw [State.created, hx, hn]
    exact h.handedOut
  · intro hs
    rw [← List.count_eq_zero, hcount _ (by decide)]
    have hno := List.count_eq_zero.mpr (h.settled (hst.symm.trans hs))
    rwa [hpop, List.count_cons_of_ne (by decide)] at hno
  · rw [State.closedNative, State.created, hx, hn, hst]
    exact h.ended
  · rw [hlog]
    exact fun _ => h.silent (Or.inr (Or.inl hd))

theorem acts (h : Releasing lib s) (hl : lib.Lawful) {P : Action ω → Prop} {n : σ}
    (ha : lib.Acts P s.asyncSrt.native n)
    (he : (t.disposal, t.startedToDispose, t.socket, t.awaits, t.stack, t.log, t.created,
        t.asyncSrt.async.disposing, t.asyncSrt.native) =
      (s.disposal, s.startedToDispose, s.socket, s.awaits, s.stack, s.log, s.created,
        s.asyncSrt.async.disposing, n)) (hc : t.closedNative ↔ s.closedNative) :
    Releasing lib t := by
  simp only [Prod.mk.injEq] at he
  obtain ⟨hd, hst, hsock, haw, hstack, hlog, hcreated, hph, hn⟩ := he
  have hended : ∀ u ∈ s.created, ¬ lib.Open s.asyncSrt.native u → ¬ lib.Open n u :=
    fun u hu => hl.ended ha (h.handedOut u hu)
  refine ⟨?_, ?_, ?_, ?_, ?_, ?_, ?_⟩
  · rw [hcreated, hn]
    exact fun u hu => hl.handedOut ha (h.handedOut u hu)
  · rw [hst, haw]
    exact h.settled
  · rw [hd, hcreated, hsock, hn]
    exact fun hdis u hu => (h.owned hdis u hu).imp_right (hended u hu)
  · rw [hc, hst, hcreated, hn]
    exact fun hclosed => ⟨(h.ended hclosed).1, fun u hu => hended u hu ((h.ended hclosed).2 u hu)⟩
  · rw [hd, hlog]
    exact h.silent
  · rw [hd, hph, hc]
    exact h.emitted
  · rw [hph]
    intro hfin
    cases h.ending hfin with
    | exited hd' ha' hs' => exact .exited (hd ▸ hd') (haw ▸ ha') (hstack ▸ hs')
    | emitted hd' ha' hn' hl' =>
      exact .emitted (hd ▸ hstack ▸ hd') (haw ▸ ha') (hsock ▸ hn') (hlog ▸ hl')
    | failed hd' ha' hs' => exact .failed (hd ▸ hd') (haw ▸ ha') (hstack ▸ hs')

theorem step_executesCreate (h : Releasing lib s) (hl : lib.Lawful) (hw : Wired s)
    (hdis : Disposing s) {data : AsyncSRTWorkerPost} {rest : List AsyncSRTWorkerPost}
    (hq : s.asyncSrt.async.toWorker = data :: rest) (hcreate : data.method = .createSocket)
    (hfin : s.asyncSrt.async.disposing ≠ .finished) (history : List (ω ⊕ AsyncSRTWorkerPost)) :
    Releasing lib { s with asyncSrt :=
      ⟨s.asyncSrt.async.exec data (lib.call s.asyncSrt.native data).2,
        (lib.call s.asyncSrt.native data).1, history⟩ } := by
  obtain ⟨-, hu, q, hqp, hdata, hwait⟩ := hw.executing hq
  have hexec := exec_executed s.asyncSrt.async hu
  have ha : lib.Acts (fun _ => True) s.asyncSrt.native (lib.call s.asyncSrt.native data).1 :=
    Libsrt.acts_call (fun _ _ => trivial) fun _ _ => trivial
  have hmatch := hw.matched q hqp
  rw [hdata] at hmatch
  have hd : s.startedToDispose = false := by
    by_contra hn
    apply h.settled (by simpa using hn)
    have hwaiter : q.1.waiter = .create := by
      rw [hcreate] at hmatch
      exact Await.eq_create hmatch
    exact hwaiter ▸ hwait
  have hnot : s.disposal = .notCalled := hdis.notCalled.mp hd
  have hpost : data = createPost := hdata ▸ hw.creates q hqp (hdata ▸ hcreate)
  have hnone : ¬ s.closedNative := fun hclosed => by
    have := (h.ended hclosed).1
    simp [hd] at this
  refine ⟨?_, h.settled, by simp [hnot], ?_, h.silent, by simp [hnot], fun he => absurd he hfin⟩
  · intro u hu'
    obtain ⟨x, hx, hm, ho⟩ := mem_created.mp hu'
    rw [hexec] at hx
    rcases List.mem_append.mp hx with hx | hx
    · exact hl.handedOut ha (h.handedOut u (mem_created.mpr ⟨x, hx, hm, ho⟩))
    · rw [List.mem_singleton.mp hx] at ho
      rw [hpost] at ho ⊢
      exact hl.created ho
  · rintro ⟨x, hx, hm⟩
    rw [hexec] at hx
    rcases List.mem_append.mp hx with hx | hx
    · exact absurd ⟨x, hx, hm⟩ hnone
    · rw [List.mem_singleton.mp hx] at hm
      simp [hcreate] at hm

theorem created_exec {data : AsyncSRTWorkerPost} (hu : anyUndefined data.args = false)
    (hcreate : data.method ≠ .createSocket) (o : Outcome) (n : σ)
    (history : List (ω ⊕ AsyncSRTWorkerPost)) :
    { s with asyncSrt := ⟨s.asyncSrt.async.exec data o, n, history⟩ }.created = s.created := by
  have hnone : createdBy (data, o) = none := by
    cases hc : createdBy (data, o) with
    | none => rfl
    | some u => exact absurd (createdBy_eq.mp hc).1 hcreate
  simp [State.created, exec_executed _ hu, List.filterMap_append, hnone]

/-- The worker closes a socket. The close is that of the disposal, and of the socket in the
field. -/
theorem step_executesClose (h : Releasing lib s) (hl : lib.Lawful) (hw : Wired s)
    (hdis : Disposing s) {data : AsyncSRTWorkerPost} {rest : List AsyncSRTWorkerPost}
    (hq : s.asyncSrt.async.toWorker = data :: rest) (hclose : data.method = .close)
    (hfin : s.asyncSrt.async.disposing ≠ .finished) (history : List (ω ⊕ AsyncSRTWorkerPost)) :
    Releasing lib { s with asyncSrt :=
      ⟨s.asyncSrt.async.exec data (lib.call s.asyncSrt.native data).2,
        (lib.call s.asyncSrt.native data).1, history⟩ } := by
  obtain ⟨-, hu, q, hqp, hdata, hwait⟩ := hw.executing hq
  have ha : lib.Acts (fun _ => True) s.asyncSrt.native (lib.call s.asyncSrt.native data).1 :=
    Libsrt.acts_call (fun _ _ => trivial) fun _ _ => trivial
  have hcreated := created_exec (s := s) hu (by simp [hclose])
  have hmatch := hw.matched q hqp
  rw [hdata] at hmatch
  have hwaiter : q.1.waiter = .disposeClose := by
    rw [hclose] at hmatch
    exact Await.eq_disposeClose hmatch (hw.waits _ hwait)
  have hd := hdis.closing (hwaiter ▸ hwait)
  have hst := hdis.started (by simp [hd])
  have hpost : data = s.closePost :=
    hdata ▸ (hdis.owned (Or.inl hd)).2.2 q hqp (hdata ▸ hclose)
  have hall : ∀ u ∈ s.created, ¬ lib.Open (lib.call s.asyncSrt.native data).1 u := by
    intro u hu'
    rcases h.owned hd u hu' with he | he
    · have hcall : (lib.call s.asyncSrt.native data).1 =
          (lib.run s.asyncSrt.native (.close u)).1 := by
        rw [hpost, State.closePost, he]
        exact Libsrt.close_state _ u
      rw [hcall]
      exact hl.close_ends _ u (h.handedOut u hu')
    · exact hl.ended ha (h.handedOut u hu') he
  refine ⟨?_, h.settled, ?_, fun _ => ⟨hst, ?_⟩, h.silent, by simp [hd], fun he => absurd he hfin⟩
  · rw [hcreated]
    exact fun u hu' => hl.handedOut ha (h.handedOut u hu')
  · rw [hcreated]
    exact fun _ u hu' => Or.inr (hall u hu')
  · rw [hcreated]
    exact hall

theorem step_executes (h : Releasing lib s) (hl : lib.Lawful) (hw : Wired s) (hdis : Disposing s)
    {data : AsyncSRTWorkerPost} {rest : List AsyncSRTWorkerPost}
    (hq : s.asyncSrt.async.toWorker = data :: rest) (history : List (ω ⊕ AsyncSRTWorkerPost)) :
    Releasing lib { s with asyncSrt :=
      ⟨s.asyncSrt.async.exec data (lib.call s.asyncSrt.native data).2,
        (lib.call s.asyncSrt.native data).1, history⟩ } := by
  obtain ⟨hworker, hu, -⟩ := hw.executing hq
  have hfin : s.asyncSrt.async.disposing ≠ .finished := by
    intro he
    have hheld := hw.invariant.disposal.held.mp hworker
    simp [he] at hheld
  by_cases hcreate : data.method = .createSocket
  · exact h.step_executesCreate hl hw hdis hq hcreate hfin history
  by_cases hclose : data.method = .close
  · exact h.step_executesClose hl hw hdis hq hclose hfin history
  · have hcreated := created_exec (s := s) hu hcreate
    have ha : lib.Acts (fun _ => True) s.asyncSrt.native (lib.call s.asyncSrt.native data).1 :=
      Libsrt.acts_call (fun _ _ => trivial) fun _ _ => trivial
    apply h.acts hl ha (by simp only [hcreated]; rfl)
    simp [State.closedNative, exec_executed _ hu, or_and_right, exists_or, hclose]

end Releasing

theorem exited_frozen (sync : SyncSRT σ ω) (p : Config) (hw : Wired s)
    (hf : s.asyncSrt.async.disposing = .finished) {e : Event ω} (he : Enabled s e)
    (hr : e ≠ .resume) (hl : ∀ threw, e ≠ .listenerReturn threw) :
    ((next sync p s e).disposal, (next sync p s e).startedToDispose, (next sync p s e).socket,
      (next sync p s e).awaits, (next sync p s e).stack, (next sync p s e).log,
      (next sync p s e).asyncSrt.async) =
    (s.disposal, s.startedToDispose, s.socket, s.awaits, s.stack, s.log, s.asyncSrt.async) ∧
    ((next sync p s e).asyncSrt.native = s.asyncSrt.native ∨
      ∃ w, e = .env w ∧ (next sync p s e).asyncSrt.native = sync.env s.asyncSrt.native w) := by
  obtain ⟨_, hto, hmain⟩ := hw.dropped (hw.terminated (Or.inr hf))
  have hasync : s.asyncSrt.async.startedToDispose = true := by
    by_contra hn
    have hnot := hw.invariant.disposal.started.mp (by simpa using hn)
    simp [hf] at hnot
  have hd : s.startedToDispose = true := hw.disposing hasync
  cases e with
  | create =>
    simp only [next, State.create]
    rw [if_pos hd]
    split <;> exact ⟨rfl, Or.inl rfl⟩
  | opening =>
    simp only [next, State.openSocket]
    rw [if_pos hd]
    split <;> exact ⟨rfl, Or.inl rfl⟩
  | dispose =>
    by_cases hk : p.kind = .server
    · simp [next, State.dispose, hk, State.clearTimers, hd, State.ret, State.awaits]
    · simp [next, State.dispose, hk, hd, State.ret, State.awaits]
  | closeConnection c =>
    simp only [next, State.closeConnection]
    split
    · exact ⟨rfl, Or.inl rfl⟩
    · rename_i conn hconn
      rw [if_pos (hw.closed conn (List.mem_of_getElem? hconn))]
      exact ⟨rfl, Or.inl rfl⟩
  | listenerReturn threw => exact absurd rfl (hl threw)
  | resume => exact absurd rfl hr
  | resumeDispose => simp [Enabled, hf] at he
  | exec => exact absurd hto he.1
  | deliver => exact absurd hmain he.2
  | pollTimer =>
    simp [next, State.pollEvents, hasync, State.clearTimers, State.awaits]
  | pollDispose => simp [Enabled, hf] at he
  | exited code => simp [Enabled, hf] at he
  | env w => exact ⟨rfl, Or.inr ⟨w, rfl, rfl⟩⟩

namespace Releasing

theorem step_created (h : Releasing lib s) (hdis : Disposing s)
    (hf : s.asyncSrt.async.disposing ≠ .finished) {v : ReturnValue}
    {rest : List (Await × Except Failure ReturnValue)}
    (hq : s.microtasks = (.create, .ok v) :: rest) :
    Releasing lib ({ s with microtasks := rest, socket := .ofReply v }.emit .created .created) := by
  have hmem : .create ∈ s.awaits := List.mem_append_left _ (by simp [hq])
  refine h.early rfl hf hf (fun hs => absurd hmem (h.settled hs)) ?_ ⟨[.created], rfl, by simp⟩
  exact fun hd => absurd hmem (hdis.owned (Or.inl hd)).1

theorem step_disposed (h : Releasing lib s) (hdis : Disposing s) (hs : s.stack = [])
    {v : ReturnValue} {rest : List (Await × Except Failure ReturnValue)}
    (hq : s.microtasks = (.disposeAsync, .ok v) :: rest) :
    Releasing lib { s with microtasks := rest, socket := .null }.emitDisposed := by
  have hpop := awaits_pop (t := { s with microtasks := rest, socket := .null }.emitDisposed) hq rfl
  obtain ⟨hd, hf⟩ := hdis.exited (hpop ▸ List.mem_cons_self)
  have hnil : { s with microtasks := rest, socket := .null }.emitDisposed.awaits = [] := by
    cases h.ending hf with
    | exited _ ha _ =>
      rw [hpop] at ha
      exact (List.cons.inj ha).2
    | emitted hd' _ _ _ => rcases hd' with hd' | hd' <;> simp [hd] at hd'
    | failed hd' _ _ => simp [hd] at hd'
  have hclosed : s.closedNative := by
    obtain ⟨x, hx, hfst⟩ := List.mem_map.mp (hdis.closed hd)
    exact ⟨x, hx, by rw [hfst]; rfl⟩
  refine ⟨h.handedOut, fun _ => by simp [hnil], by simp [State.emitDisposed, State.emit], h.ended,
    by simp [State.emitDisposed, State.emit], fun _ => ⟨hf, hclosed⟩, fun _ => ?_⟩
  exact .emitted (Or.inl ⟨rfl, congrArg (Frame.disposed :: ·) hs⟩) hnil rfl
    ⟨s.log, rfl, h.silent (Or.inr (Or.inr hd))⟩

theorem step_fails (h : Releasing lib s) {a : Await} {e : Failure}
    {rest : List (Await × Except Failure ReturnValue)} (hq : s.microtasks = (a, .error e) :: rest)
    (hs : s.stack = []) : Releasing lib ({ s with microtasks := rest }.failDispose e) := by
  have hpop := awaits_pop (t := { s with microtasks := rest }.failDispose e) hq rfl
  refine ⟨h.handedOut, ?_, by simp [State.failDispose, State.ret], h.ended,
    by simp [State.failDispose, State.ret], by simp [State.failDispose, State.ret], fun hf => ?_⟩
  · intro hst hmem
    exact h.settled hst (hpop ▸ List.mem_cons_of_mem _ hmem)
  · have hnil : ({ s with microtasks := rest }.failDispose e).awaits = [] := by
      cases h.ending hf with
      | exited _ ha' _ =>
        rw [hpop] at ha'
        exact (List.cons.inj ha').2
      | emitted _ ha' _ _ => simp [hpop] at ha'
      | failed _ ha' _ => simp [hpop] at ha'
    exact .failed rfl hnil hs

theorem step_listeners (h : Releasing lib s) (hdis : Disposing s) {rest : List Frame}
    (hs : s.stack = .disposed :: rest)
    (he : (t.startedToDispose, t.asyncSrt, t.microtasks, t.stack, t.log, t.socket) =
      (s.startedToDispose, s.asyncSrt, s.microtasks, rest, s.log, s.socket))
    (hd : t.disposal = .finished ∨ t.disposal = .failed) : Releasing lib t := by
  simp only [Prod.mk.injEq] at he
  obtain ⟨hst, hasy, hmicro, hstack, hlog, hsock⟩ := he
  have hemit := hdis.emitting (hs ▸ List.mem_cons_self)
  obtain ⟨hf, hclosed⟩ := h.emitted (Or.inl hemit)
  have hawaits : t.awaits = s.awaits := by simp [State.awaits, hasy, hmicro]
  have hcreated : t.created = s.created := by simp [State.created, hasy]
  have hclosed' : t.closedNative ↔ s.closedNative := by simp [State.closedNative, hasy]
  refine ⟨?_, ?_, ?_, ?_, ?_, ?_, fun _ => ?_⟩
  · rw [hcreated, hasy]
    exact h.handedOut
  · rw [hst, hawaits]
    exact h.settled
  · rcases hd with hd | hd <;> simp [hd]
  · rw [hclosed', hst, hcreated, hasy]
    exact h.ended
  · rcases hd with hd | hd <;> simp [hd]
  · rw [hasy, hclosed']
    exact fun _ => ⟨hf, hclosed⟩
  · cases h.ending hf with
    | exited hd' _ _ => simp [hemit] at hd'
    | failed hd' _ _ => simp [hemit] at hd'
    | emitted hd' ha hn hl =>
      have hrest : rest = [] := by
        rcases hd' with ⟨_, hst'⟩ | ⟨hd', _⟩
        · rw [hs] at hst'
          exact (List.cons.inj hst').2
        · simp [hemit] at hd'
      rcases hd with hd | hd
      · exact .emitted (Or.inr ⟨hd, hstack.trans hrest⟩) (hawaits.trans ha) (hsock.trans hn)
          (hlog ▸ hl)
      · exact .failed hd (hawaits.trans ha) (hstack.trans hrest)

theorem step_exits (h : Releasing lib s) (hw : Wired s) (hdis : Disposing s) (hi : Idle s)
    (hd : s.asyncSrt.async.disposing = .terminating) (code : ℤ) :
    Releasing lib ((s.setAsync (AsyncApi.next s.asyncSrt.async (.exited code))).wake .disposeAsync
      (.ok .undefined)) := by
  obtain ⟨hs, hmicro, _⟩ := hi
  have hqueue := hw.invariant.correlated.dropped (hw.terminated (Or.inl hd))
  have hstage : s.disposal = .disposing := by
    rcases hdis.phase with hp | hp | hp
    · simp [hd] at hp
    · simp [hd] at hp
    · exact hp
  have hawaits : ((s.setAsync (AsyncApi.next s.asyncSrt.async (.exited code))).wake .disposeAsync
      (.ok .undefined)).awaits = [.disposeAsync] := by
    simp [State.awaits, State.wake, State.setAsync, AsyncApi.next, hmicro, hqueue]
  refine { h with
      settled := fun _ => by simp [hawaits]
      owned := ?_
      emitted := ?_
      ending := fun _ => ?_ }
  · simp [State.wake, State.setAsync, hstage]
  · simp [State.wake, State.setAsync, hstage]
  · exact .exited hstage hawaits hs

/-- After the worker has exited only the disposal goes on. -/
theorem step_exited (h : Releasing lib s) (hl : lib.Lawful) (hw : Wired s) (hdis : Disposing s)
    (hf : s.asyncSrt.async.disposing = .finished) {e : Event ω} (he : Enabled s e) :
    Releasing lib (next (nodeSRT lib) p s e) := by
  by_cases hr : e = .resume
  · subst hr
    obtain ⟨hs, hm⟩ := he
    obtain ⟨⟨a, r⟩, rest, hq⟩ := List.exists_cons_of_ne_nil hm
    have hmem : a ∈ s.awaits := List.mem_append_left _ (by simp [hq])
    have ha : a = .disposeAsync := by
      cases h.ending hf with
      | exited _ hawaits _ => simpa [hawaits] using hmem
      | emitted _ hawaits _ _ => simp [hawaits] at hmem
      | failed _ hawaits _ => simp [hawaits] at hmem
    subst ha
    simp only [next, hq]
    cases r with
    | ok v => exact h.step_disposed hdis hs hq
    | error e => exact h.step_fails hq hs
  by_cases hreturn : ∃ threw, e = .listenerReturn threw
  · obtain ⟨threw, rfl⟩ := hreturn
    have hs : s.stack = [.disposed] := by
      cases h.ending hf with
      | exited _ _ hs => exact absurd hs he
      | emitted hd _ _ _ => exact hd.elim (fun hd => hd.2) fun hd => absurd hd.2 he
      | failed _ _ hs => exact absurd hs he
    simp only [next, hs]
    cases threw with
    | false => exact h.step_listeners hdis hs rfl (Or.inl rfl)
    | true => exact h.step_listeners hdis hs rfl (Or.inr rfl)
  · obtain ⟨hsame, hnative⟩ :=
      exited_frozen (nodeSRT lib) p hw hf he hr fun threw ht => hreturn ⟨threw, ht⟩
    simp only [Prod.mk.injEq] at hsame
    obtain ⟨hd, hst, hsock, haw, hstack, hlog, hasync⟩ := hsame
    have hacts : lib.Acts (fun _ => True) s.asyncSrt.native
        (next (nodeSRT lib) p s e).asyncSrt.native := by
      rcases hnative with hn | ⟨w, _, hn⟩
      · rw [hn]
        exact Libsrt.Acts.none _
      · rw [hn]
        exact Libsrt.Acts.one (a := .env w) _ trivial
    refine h.acts hl hacts ?_ (by rw [State.closedNative, hasync]; rfl)
    simp [hd, hst, hsock, haw, hstack, hlog, hasync, State.created]

theorem step (h : Releasing lib s) (hl : lib.Lawful) (hw : Wired s) (hdis : Disposing s)
    {e : Event ω} (he : Enabled s e) (ho : DisposesOwned lib s e) :
    Releasing lib (next (nodeSRT lib) p s e) := by
  by_cases hf : s.asyncSrt.async.disposing = .finished
  · exact h.step_exited hl hw hdis hf he
  have hcase : Case (nodeSRT lib) s e (next (nodeSRT lib) p s e) := (step_cases hw he).2
  generalize next (nodeSRT lib) p s e = t at hcase ⊢
  cases hcase with
  | moves hm => exact h.moves hm hf
  | refuses => exact h.early rfl hf hf h.settled (fun _ => rfl) ⟨[], by simp [State.ret], by simp⟩
  | creates _ hd =>
    exact h.early rfl hf hf (fun hs => by simp [hd] at hs) (fun _ => rfl)
      ⟨[], by simp [State.setAsync], by simp⟩
  | @closes u hm hne hd =>
    have hord := hm.ordinary
    obtain ⟨hfields, ha, hawaits, _⟩ := hord
    simp only [Prod.mk.injEq] at hfields ha
    obtain ⟨_, hc, hown⟩ := ho (hfields.2.1 ▸ hd)
    refine (h.moves hm hf).step_closes hm.wired (hdis.moves hm) hd ?_ ?_
    · rwa [← List.count_eq_zero, hawaits _ rfl, List.count_eq_zero]
    · simpa [State.created, ha, hfields] using hown
  | vacuous hm hs hd =>
    have hfields := hm.ordinary.fields
    simp only [Prod.mk.injEq] at hfields
    exact absurd (hfields.1 ▸ hs) (ho (hfields.2.1 ▸ hd)).1
  | created hq => exact h.step_created hdis hf hq
  | closed hq => exact h.step_closed hw hdis hq
  | disposed hs hq => exact h.step_disposed hdis hs hq
  | fails _ hq => exact h.step_fails hq he.1
  | finishes hs => exact h.step_listeners hdis hs rfl (Or.inl rfl)
  | throws hs => exact h.step_listeners hdis hs rfl (Or.inr rfl)
  | executes hq => exact h.step_executes hl hw hdis hq _
  | phase hsame _ ht =>
    simp only [Prod.mk.injEq] at hsame
    refine h.early (by simp [State.setAsync, hsame]) hf ?_ ?_ (fun _ => rfl)
      ⟨[], by simp [State.setAsync], by simp⟩
    · rcases ht with ht | ht | ht <;> simp [State.setAsync, ht]
    · simpa [State.awaits, State.setAsync, hsame] using h.settled
  | exits hi hd => exact h.step_exits hw hdis hi hd _
  | env w =>
    have ha : lib.Acts (fun _ => True) s.asyncSrt.native (lib.env s.asyncSrt.native w) :=
      Libsrt.Acts.one (a := .env w) _ trivial
    exact h.acts hl ha rfl Iff.rfl

end Releasing

theorem execution_releasing (hl : lib.Lawful) {n : σ}
    (h : ((machine (nodeSRT lib) p).restrict (DisposesOwned lib)).Execution (initial n) s) :
    Wired s ∧ Disposing s ∧ Releasing lib s := by
  refine h.invariant (I := fun s => Wired s ∧ Disposing s ∧ Releasing lib s)
    ⟨initial_wired n, initial_disposing n, initial_releasing lib n⟩ fun u e hu he => ?_
  obtain ⟨hw, hdis, hr⟩ := hu
  obtain ⟨hw', hc⟩ := step_cases hw he.1
  have hsettled : CreatesSettled u e := by
    cases e with
    | dispose => exact fun hd _ => (he.2 hd).2.1
    | _ => trivial
  exact ⟨hw', hdis.step hw hc hsettled, hr.step hl hw hdis he.1 he.2⟩

/-- A finished disposal of the only socket leaves nothing behind. -/
theorem finished_disposal_releases (hl : lib.Lawful) {n : σ}
    (h : ((machine (nodeSRT lib) p).restrict (DisposesOwned lib)).Execution (initial n) s)
    (hd : s.disposal = .finished) : Released lib s := by
  obtain ⟨hw, _, hr⟩ := execution_releasing hl h
  obtain ⟨hf, hclosed⟩ := hr.emitted (Or.inr hd)
  have hworker := hw.terminated (Or.inr hf)
  have hterm := hw.invariant.disposal.terminated
  cases hr.ending hf with
  | exited hd' _ _ => simp [hd] at hd'
  | failed hd' _ _ => simp [hd] at hd'
  | emitted _ _ hn hlog =>
    exact ⟨⟨hworker, by simp [hterm, hworker]⟩, hn, (hr.ended hclosed).2, hlog⟩

def pollingRun : List (Event TableEvent) :=
  openRun ++ [.dispose] ++ answer ++ answer ++ [.exited 0, .resume, .listenerReturn false]

theorem finished_disposal_releases_polling :
    let s := serverMachine.runTrace (initial .empty) pollingRun
    s.disposal = .finished ∧ Released tableLibsrt s := by
  intro s
  have h : (serverMachine.restrict (DisposesOwned tableLibsrt)).Execution (initial .empty) _ :=
    Machine.execution_of_trace _ _ pollingRun (by decide)
  rw [Machine.runTrace_restrict] at h
  have hd : s.disposal = .finished := by decide
  exact ⟨hd, finished_disposal_releases table_lawful h hd⟩

/-- The object is disposed of before it is created: its worker is never terminated. -/
theorem early_disposal_releases_nothing :
    ¬ ∀ s : State Table TableEvent, serverMachine.Execution (initial .empty) s →
      s.disposal = .finished → s.awaits = [] → s.stack = [] → Released tableLibsrt s := by
  intro h
  have hr := serverMachine.execution_of_trace (initial .empty) [.dispose, .listenerReturn false]
    (by decide)
  have hworker := (h _ hr (by decide) (by decide) (by decide)).terminated.1
  exact absurd hworker (by decide)

end SocketAsync
