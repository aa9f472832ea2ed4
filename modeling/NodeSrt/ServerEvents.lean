import NodeSrt.ServerMap

/-! # The order of events, and what becomes of connections

Whatever a user calls and whenever, the events of a socket object come in the order of its
life: nothing is opened before it is created, no connection comes before the server is
opened, each is announced once and before anything else of it, and once the object is
disposed of only a late `created` is left. A connection is never closed. -/
namespace SocketAsync

open AsyncValues
open TransitionSystem
open AsyncApi
open NativeSrt
open OrderedPort (getElem?_concat_cases)
open ServerConnection (SRTServerConnection)

variable {σ ω : Type*} {lib : Libsrt σ ω} {sync : SyncSRT σ ω} {p : Config} {s t u : State σ ω}
  {e : Event ω} {n : σ}

/-! ## Event logs -/

def Emission.isConnection : Emission → Bool
  | .connection _ => true
  | _ => false

/-- What has to come before an event. `fds` are the ids of the connections, by their numbers. -/
def Needs (fds : List JSValue) (before : List Emission) : Emission → Prop
  | .created | .disposed => True
  | .opened => .created ∈ before
  | .connection c => .opened ∈ before ∧ c = before.countP Emission.isConnection
  | .disconnection fd => ∃ c, fds[c]? = some (.number fd) ∧ .connection c ∈ before
  | .ofConnection c .data => .connection c ∈ before
  | .ofConnection _ .closing | .ofConnection _ (.closed _) => False

/-- Each event comes after what it needs, and none but `created` after `disposed`. -/
def InOrder (fds : List JSValue) (log : List Emission) : Prop :=
  ∀ k y, log[k]? = some y →
    Needs fds (log.take k) y ∧ (.disposed ∈ log.take k → y = .created)

theorem Needs.mono {fds gds : List JSValue} {before : List Emission} {y : Emission}
    (h : Needs fds before y) (hp : fds <+: gds) : Needs gds before y := by
  cases y with
  | disconnection fd =>
    obtain ⟨c, hc, hm⟩ := h
    refine ⟨c, ?_, hm⟩
    obtain ⟨rest, rfl⟩ := hp
    rw [List.getElem?_append_left (List.getElem?_eq_some_iff.mp hc).1]
    exact hc
  | ofConnection c e => cases e <;> exact h
  | created | disposed | opened | connection c => exact h

theorem InOrder.mono {fds gds : List JSValue} {log : List Emission} (h : InOrder fds log)
    (hp : fds <+: gds) : InOrder gds log :=
  fun k y hy => ⟨(h k y hy).1.mono hp, (h k y hy).2⟩

theorem InOrder.append {fds : List JSValue} {log : List Emission} {y : Emission}
    (h : InOrder fds log) (hn : Needs fds log y) (hd : .disposed ∈ log → y = .created) :
    InOrder fds (log ++ [y]) := by
  intro k z hz
  rcases getElem?_concat_cases hz with hz | ⟨rfl, rfl⟩
  · have hlt := (List.getElem?_eq_some_iff.mp hz).1
    rw [List.take_append_of_le_length hlt.le]
    exact h k z hz
  · rw [List.take_left']
    · exact ⟨hn, hd⟩
    · rfl

theorem InOrder.init {fds : List JSValue} {log : List Emission} {y : Emission}
    (h : InOrder fds (log ++ [y])) : InOrder fds log := by
  intro k z hz
  have hlt := (List.getElem?_eq_some_iff.mp hz).1
  have hk := h k z (by rw [List.getElem?_append_left hlt]; exact hz)
  rwa [List.take_append_of_le_length hlt.le] at hk

theorem InOrder.needs {fds : List JSValue} {log : List Emission} {y : Emission}
    (h : InOrder fds (log ++ [y])) : Needs fds log y := by
  have hlast := (h log.length y List.getElem?_concat_length).1
  rwa [List.take_left'] at hlast
  rfl

/-- The connections are announced by their numbers, one after the other. -/
theorem InOrder.announced {fds : List JSValue} {log : List Emission} (h : InOrder fds log) :
    log.filter Emission.isConnection =
      (List.range (log.countP Emission.isConnection)).map .connection := by
  induction log using List.reverseRecOn with
  | nil => rfl
  | append_singleton log y ih =>
    rw [List.filter_append, List.countP_append, ih h.init]
    cases y with
    | connection c =>
      obtain ⟨-, rfl⟩ := h.needs
      simp [Emission.isConnection, List.range_succ]
    | created | opened | disposed | disconnection fd | ofConnection c e =>
      simp [Emission.isConnection]

/-! ## What a step emits -/

/-- The cause of an event: the microtask that emits it, or `dispose` without a socket. -/
inductive Cause (s : State σ ω) : Event ω → Emission → Prop
  | created {v : ReturnValue} {rest : List (Await × Except Failure ReturnValue)}
      (hq : s.microtasks = (.create, .ok v) :: rest) : Cause s .resume .created
  | opened {v : ReturnValue} {rest : List (Await × Except Failure ReturnValue)}
      (hq : s.microtasks = (.opening .epollCreate, .ok v) :: rest) : Cause s .resume .opened
  | connection {fd : Slot} {v : ReturnValue} {rest : List (Await × Except Failure ReturnValue)}
      (hq : s.microtasks = (.handling (.epollAddUsock fd), .ok v) :: rest) :
      Cause s .resume (.connection s.connections.length)
  | disconnection {fd : ℤ} {v : ReturnValue} {rest : List (Await × Except Failure ReturnValue)}
      (hq : s.microtasks = (.handling (.close fd), .ok v) :: rest) :
      Cause s .resume (.disconnection fd)
  | data {event : SRTEpollResult} {v : ReturnValue}
      {rest : List (Await × Except Failure ReturnValue)} {c : ℕ}
      (hq : s.microtasks = (.handling (.getSockState event), .ok v) :: rest)
      (hl : s.lookup (.number event.socket) = some c) : Cause s .resume (.ofConnection c .data)
  | vacuous (hs : s.socket = .null) (hd : s.startedToDispose = false) : Cause s .dispose .disposed
  | disposed {v : ReturnValue} {rest : List (Await × Except Failure ReturnValue)}
      (hs : s.stack = []) (hq : s.microtasks = (.disposeAsync, .ok v) :: rest) :
      Cause s .resume .disposed

@[simp] theorem post_log (s : State σ ω) (c : ApiCall) (a : Await) : (s.post c a).log = s.log := by
  unfold State.post
  dsimp only
  split
  · unfold State.wakeSettled
    split <;> rfl
  all_goals rfl

theorem pollEvents_log (s : State σ ω) : s.pollEvents.log = s.log := by
  unfold State.pollEvents
  split
  · rfl
  · exact post_log _ _ _

theorem create_log (s : State σ ω) : s.create.log = s.log := by
  unfold State.create
  dsimp only
  split
  · rfl
  split
  · rfl
  · exact post_log _ _ _

theorem openSocket_log (p : Config) (s : State σ ω) : (s.openSocket p).log = s.log := by
  unfold State.openSocket State.doOpen
  split
  · rfl
  split
  · rfl
  split
  · exact post_log _ _ _
  split
  · rfl
  · exact post_log _ _ _

theorem handleEvents_log (s : State σ ω) (events : List SRTEpollResult) :
    (events.foldl State.handleEvent s).log = s.log := by
  induction events generalizing s with
  | nil => rfl
  | cons event events ih => exact (ih (s.handleEvent event)).trans (post_log _ _ _)

theorem awaitDisposed_log (s : State σ ω) (started : Bool) :
    (s.awaitDisposed started).log = s.log := by
  unfold State.awaitDisposed
  split <;> rfl

theorem closeReturn_log (s : State σ ω) (c : ℕ) (r : Except Failure ReturnValue)
    (caller : CloseCaller) : (s.closeReturn c r caller).log = s.log := by
  cases caller <;> rfl

theorem Wired.closeConnection_log (h : Wired s) (c : ℕ) (caller : CloseCaller) :
    (s.closeConnection c caller).log = s.log := by
  unfold State.closeConnection
  dsimp only
  split
  · rfl
  · rename_i conn hconn
    rw [if_pos (h.closed conn (List.mem_of_getElem? hconn))]
    exact closeReturn_log _ _ _ _

theorem afterListeners_log (s : State σ ω) (f : Frame) : (s.afterListeners f).log = s.log := by
  cases f with
  | created | connection | disconnection | disposed | data c => rfl
  | opened => exact post_log _ _ _
  | closing c caller =>
    simp only [State.afterListeners, State.postClose]
    split
    · rfl
    · exact post_log _ _ _
  | closed c caller v => exact closeReturn_log _ _ _ _

theorem listenerThrew_log (s : State σ ω) (f : Frame) : (s.listenerThrew f).log = s.log := by
  cases f with
  | created | opened | connection | disconnection | disposed | data c => rfl
  | closing c caller | closed c caller v => exact closeReturn_log _ _ _ _

theorem unlessFailed_log {v : ReturnValue} {f : SocketError} (h : t.log = s.log) :
    (s.unlessFailed v f t).log = s.log := by
  unfold State.unlessFailed
  split
  · rfl
  · exact h

/-- A step emits nothing, or one event that has its cause. -/
def Logs (s : State σ ω) (e : Event ω) (t : State σ ω) : Prop :=
  t.log = s.log ∨ ∃ y, t.log = s.log ++ [y] ∧ Cause s e y

theorem Wired.logs_resume (h : Wired s) (hs : s.stack = []) {a : Await}
    {r : Except Failure ReturnValue} {rest : List (Await × Except Failure ReturnValue)}
    (hq : s.microtasks = (a, r) :: rest) :
    Logs s .resume ({ s with microtasks := rest }.resume a r) := by
  have hpop : Wired { s with microtasks := rest } := h.pop hq
  cases r with
  | error f =>
    left
    cases a with
    | closing c caller => exact closeReturn_log _ _ _ _
    | create | disposeClose | disposeAsync | opening | epollUWait | handling => rfl
  | ok v =>
    cases a with
    | create => exact Or.inr ⟨_, rfl, .created hq⟩
    | disposeClose => exact Or.inl (awaitDisposed_log _ _)
    | disposeAsync => exact Or.inr ⟨_, rfl, .disposed hs hq⟩
    | closing c caller =>
      have hmem : .closing c caller ∈ s.awaits :=
        mem_awaits.mpr (Or.inl ⟨.ok v, hq ▸ List.mem_cons_self⟩)
      cases h.waits _ hmem
    | epollUWait =>
      left
      simp only [State.resume, State.onEvents]
      split
      · exact handleEvents_log _ _
      · rfl
    | opening step =>
      cases step with
      | bind | listen => exact Or.inl (unlessFailed_log (post_log _ _ _))
      | epollAddUsock => exact Or.inl (pollEvents_log _)
      | connect => exact Or.inl (unlessFailed_log rfl)
      | epollCreate =>
        simp only [State.resume, State.resumeOpen, State.unlessFailed]
        split
        · exact Or.inl rfl
        · exact Or.inr ⟨_, rfl, .opened hq⟩
    | handling step =>
      cases step with
      | accept => exact Or.inl (post_log _ _ _)
      | epollAddUsock fd => exact Or.inr ⟨_, rfl, .connection hq⟩
      | close fd => exact Or.inr ⟨_, rfl, .disconnection hq⟩
      | getSockState event =>
        simp only [State.resume, State.resumeHandle, State.onStatus]
        split
        · left
          split
          · exact post_log _ _ _
          · rfl
        split
        · left
          split
          · exact hpop.closeConnection_log _ _
          · rfl
        split
        · rename_i c hc
          exact Or.inr ⟨_, rfl, .data hq hc⟩
        · exact Or.inl rfl

theorem Wired.logs (h : Wired s) (he : Enabled s e) : Logs s e (next sync p s e) := by
  cases e with
  | create => exact Or.inl (create_log s)
  | opening => exact Or.inl (openSocket_log p s)
  | dispose =>
    simp only [next, State.dispose]
    generalize hu : (if p.kind = .server then s.clearTimers else s) = u
    have hf : (u.log, u.socket, u.startedToDispose) = (s.log, s.socket, s.startedToDispose) := by
      rw [← hu]
      split <;> rfl
    simp only [Prod.mk.injEq] at hf
    split
    · exact Or.inl hf.1
    rename_i hd
    split
    · exact Or.inl ((post_log _ _ _).trans hf.1)
    · rename_i hsock
      refine Or.inr ⟨.disposed, ?_, .vacuous ?_ ?_⟩
      · rw [← hf.1]
        rfl
      · rw [← hf.2.1]
        exact not_not.mp hsock
      · rw [← hf.2.2]
        simpa using hd
  | closeConnection c => exact Or.inl (h.closeConnection_log c .user)
  | listenerReturn threw =>
    obtain ⟨f, rest, hq⟩ := List.exists_cons_of_ne_nil he
    left
    simp only [next, hq]
    split
    · exact listenerThrew_log _ _
    · exact afterListeners_log _ _
  | resume =>
    obtain ⟨⟨a, r⟩, rest, hq⟩ := List.exists_cons_of_ne_nil he.2
    simpa only [next, hq] using h.logs_resume he.1 hq
  | resumeDispose => exact Or.inl (awaitDisposed_log _ _)
  | exited code => exact Or.inl (awaitDisposed_log _ _)
  | deliver =>
    obtain ⟨q, ks, v, heq, -⟩ := h.deliver_eq he.2
    exact Or.inl (by simp only [next, heq]; rfl)
  | pollTimer => exact Or.inl (pollEvents_log _)
  | exec | pollDispose | env w => exact Or.inl rfl

/-! ## The end of a disposal -/

/-- `dispose` awaits the exit of the worker once, when it has exited. -/
def AwaitsExit (s : State σ ω) : Prop :=
  s.awaits.count .disposeAsync ≤ if s.asyncSrt.async.disposing = .finished then 1 else 0

theorem count_pop {a b : Await} {r : Except Failure ReturnValue}
    {rest : List (Await × Except Failure ReturnValue)} (hq : s.microtasks = (b, r) :: rest)
    (ht : (t.microtasks, t.asyncSrt) = (rest, s.asyncSrt)) :
    t.awaits.count a ≤ s.awaits.count a := by
  rw [awaits_pop hq ht]
  exact List.count_le_count_cons

theorem AwaitsExit.frame (h : AwaitsExit s)
    (hd : t.asyncSrt.async.disposing = s.asyncSrt.async.disposing)
    (hc : t.awaits.count .disposeAsync ≤ s.awaits.count .disposeAsync) : AwaitsExit t := by
  unfold AwaitsExit
  rw [hd]
  exact hc.trans h

theorem AwaitsExit.step (h : AwaitsExit s) (hw : Wired s) (ho : Ordered s)
    (hc : Case sync s e t) : AwaitsExit t := by
  have hzero : s.asyncSrt.async.disposing ≠ .finished → s.awaits.count .disposeAsync = 0 := by
    intro hd
    have hle : s.awaits.count .disposeAsync ≤ _ := h
    rw [if_neg hd] at hle
    omega
  have hmoves : ∀ {u}, Moves s u → AwaitsExit u := by
    intro u hm
    have hasync := hm.ordinary.async
    simp only [Prod.mk.injEq] at hasync
    exact h.frame hasync.2.1 (hm.ordinary.awaits _ rfl).le
  cases hc with
  | moves hm => exact hmoves hm
  | vacuous hm => exact (hmoves hm).frame rfl le_rfl
  | refuses | executes | env | finishes | throws => exact h.frame rfl le_rfl
  | creates =>
    refine h.frame rfl ?_
    rw [awaits_accept, List.count_append]
    exact le_rfl
  | @closes u hm =>
    have hw' : Wired { u with startedToDispose := true, disposal := .closing } :=
      hm.wired.closing u.pollEventsTimer
    obtain ⟨hperm, -, -, hasync⟩ :=
      post_frame hw'.invariant (simple_close u.socket) .disposeClose
    simp only [Prod.mk.injEq] at hasync
    refine (hmoves hm).frame hasync.2.1 ?_
    rw [hperm.count_eq, List.count_append]
    exact le_rfl
  | created hq | disposed _ hq | fails _ hq => exact h.frame rfl (count_pop hq rfl)
  | @closed rest v hq =>
    have hpop : Wired { s with microtasks := rest } := hw.pop hq
    have hd : s.asyncSrt.async.startedToDispose = false :=
      ho.unstarted (mem_awaits.mpr (Or.inl ⟨.ok v, hq ▸ List.mem_cons_self⟩))
    have hnot : s.asyncSrt.async.disposing ≠ .finished := by
      rw [hw.invariant.disposal.started.mp hd]
      simp
    obtain ⟨hsame, -, hphase⟩ := hpop.dispose_same hd
    simp only [Prod.mk.injEq] at hsame
    have hqueue : (State.disposeAsync { s with microtasks := rest }).awaits =
        State.awaits { s with microtasks := rest } := by
      rw [hpop.disposeAsync_eq hd]
      simp [State.awaits, State.setAsync, hsame]
    have hcount :=
      (count_pop (a := .disposeAsync) (t := { s with microtasks := rest }) hq rfl).trans
        (hzero hnot).le
    unfold AwaitsExit
    rw [hqueue]
    exact hcount.trans (Nat.zero_le _)
  | @phase _ async hsame hs =>
    simp only [Prod.mk.injEq] at hsame
    have hnot : s.asyncSrt.async.disposing ≠ .finished := by rcases hs with hs | hs <;> simp [hs]
    have hcount : (s.setAsync async).awaits.count .disposeAsync ≤ 0 := by
      have hawaits := hzero hnot
      simpa [State.awaits, State.setAsync, hsame] using hawaits
    exact hcount.trans (Nat.zero_le _)
  | @exits code _ hd =>
    have hawaits : (s.setAsync (AsyncApi.next s.asyncSrt.async (.exited code))).awaits.count
        .disposeAsync = 0 := hzero (by simp [hd])
    have hperm := awaits_wake (s.setAsync (AsyncApi.next s.asyncSrt.async (.exited code)))
      .disposeAsync (.ok .undefined)
    unfold AwaitsExit
    rw [hperm.count_eq, List.count_append, hawaits]
    simp [State.wake, State.setAsync, AsyncApi.next]

/-- The object is disposed of: nothing is on its way but calls of `create`. -/
structure Over (s : State σ ω) : Prop where
  started : s.startedToDispose = true
  awaits : ∀ a ∈ s.awaits, a = .create
  stack : .opened ∉ s.stack
  timer : s.pollEventsTimer = true → s.asyncSrt.async.startedToDispose = true
  phase : s.asyncSrt.async.disposing = .notCalled ∨ s.asyncSrt.async.disposing = .finished

namespace Over

theorem uncalled (h : Over s) {x : Prompt} (hx : Prompted s e x u) {a : Await} :
    ¬ Closes x a ∧ ∀ post, ¬ Calls p u x a post := by
  have hsame := hx.same
  simp only [Prod.mk.injEq] at hsame
  have hawait : ∀ {b r}, x = .await b r → b = .create := by
    rintro b r rfl
    cases hx with
    | await hs hq => exact h.awaits b (mem_awaits.mpr (Or.inl ⟨r, hq ▸ List.mem_cons_self⟩))
  constructor
  · rintro ⟨event, v, fd, hx', -⟩
    cases hawait hx'
  · intro post hc
    have hstart : u.startedToDispose = true := hsame.2.2.1.trans h.started
    cases hc with
    | bind _ _ hd | connect _ _ hd => exact absurd (hd.symm.trans hstart) (by simp)
    | listen | epollCreate | poll | status | accept | add => cases hawait rfl
    | subscribe =>
      cases hx with
      | listeners hs => exact h.stack (hs ▸ List.mem_cons_self)
    | pollAgain hd =>
      cases hx with
      | timer hi ht => exact absurd (hd.symm.trans (h.timer ht)) (by simp)

theorem turn (h : Over s) {x : Prompt} (hx : Prompted s e x u) (ht : Turn p u x t) : Over t := by
  have hsame := hx.same
  have hf := ht.sends.fields
  simp only [Prod.mk.injEq] at hsame hf
  have hasync := hsame.1
  have hawait : ∀ {b r}, x = .await b r → b = .create := by
    rintro b r rfl
    cases hx with
    | await hs hq => exact h.awaits b (mem_awaits.mpr (Or.inl ⟨r, hq ▸ List.mem_cons_self⟩))
  refine ⟨hf.2.1.trans (hsame.2.2.1.trans h.started), fun a ha => ?_, fun hs => ?_,
    fun htimer => ?_, ?_⟩
  · obtain ⟨hcl, hcalls⟩ := h.uncalled (p := p) hx (a := a)
    rcases ht.sends.mem_awaits ha with ha | ha | ⟨post, hc⟩
    · exact h.awaits a (hx.awaits a ha)
    · exact absurd ha hcl
    · exact absurd hc (hcalls post)
  · rcases ht.stack _ hs with hs | ⟨-, hs | ⟨-, v, -, hset, -⟩⟩
    · exact h.stack (hx.stack _ hs)
    · cases hs
    · cases hawait hset
  · rw [hf.2.2.2.2.1, hasync]
    rcases ht.timer htimer with htimer | ⟨events, he⟩
    · cases hx with
      | user | await | listeners => exact h.timer htimer
      | timer => cases htimer
    · cases hawait he
  · rw [hf.2.2.2.2.2.2.2, hasync]
    exact h.phase

theorem step (h : Over s) (hw : Wired s) (hc : Change sync p s e t) : Over t := by
  have hactive : ∀ {a}, a ≠ .create → ∀ r, (a, r) ∉ s.microtasks := fun hne r hr =>
    hne (h.awaits _ (mem_awaits.mpr (Or.inl ⟨r, hr⟩)))
  have hphase : s.asyncSrt.async.disposing ≠ .waiting ∧ s.asyncSrt.async.disposing ≠ .resuming ∧
      s.asyncSrt.async.disposing ≠ .terminating := by
    rcases h.phase with hp | hp <;> simp [hp]
  cases hc with
  | turns hx _ ht => exact h.turn hx ht
  | delivers he =>
    obtain ⟨b, v, -, hq, hm, hf⟩ := hw.delivers he
    have hasync := (hw.moves_deliver he).ordinary.async
    simp only [Prod.mk.injEq] at hf hasync
    obtain ⟨-, -, hstart, hstack, -, htimer, -⟩ := hf
    refine ⟨hstart.trans h.started, fun a ha => h.awaits a (mem_awaits.mpr (Or.inr ?_)), ?_, ?_, ?_⟩
    · rw [hq]
      rcases mem_awaits.mp ha with ⟨r, hr⟩ | ha
      · rw [hm] at hr
        rw [(Prod.mk.inj (List.mem_singleton.mp hr)).1]
        exact List.mem_cons_self
      · exact List.mem_cons_of_mem _ ha
    · rw [hstack]
      exact h.stack
    · rw [htimer, hasync.2.2.1]
      exact h.timer
    · rw [hasync.2.1]
      exact h.phase
  | creates _ hd | closes _ _ hd | vacuous _ _ hd =>
    exact absurd (hd.symm.trans h.started) (by simp)
  | @created rest v hs hq =>
    refine ⟨h.started, fun a ha => h.awaits a ?_, fun hst => ?_, h.timer, h.phase⟩
    · rw [awaits_pop (t := { s with microtasks := rest }) hq rfl]
      exact List.mem_cons_of_mem _ ha
    · rcases List.mem_cons.mp hst with hst | hst
      · cases hst
      · exact h.stack hst
  | closed hs hq => exact absurd (hq ▸ List.mem_cons_self) (hactive (by simp) _)
  | disposed hs hq => exact absurd (hq ▸ List.mem_cons_self) (hactive (by simp) _)
  | executes => exact ⟨h.started, h.awaits, h.stack, h.timer, h.phase⟩
  | waits _ hd => exact absurd hd hphase.1
  | terminates _ hd => exact absurd hd hphase.2.1
  | exits _ hd => exact absurd hd hphase.2.2
  | env w => exact ⟨h.started, h.awaits, h.stack, h.timer, h.phase⟩

end Over

/-- The event `disposed` is emitted when all is over. -/
theorem over_of_disposed (hw : Wired s) (ho : Ordered s) (hd : Drained s) (ha : AwaitsExit s)
    (hc : Cause s e .disposed) : Over (next sync p s e) := by
  have hphase := hw.invariant.disposal.started
  cases hc with
  | vacuous hs hstart =>
    obtain ⟨hall, hopened, htimer⟩ := ho.fresh hs hstart
    have hasync : s.asyncSrt.async.startedToDispose = false := by
      by_contra hn
      exact absurd (hstart.symm.trans (hw.disposing (by simpa using hn))) (by simp)
    obtain ⟨timer, ht, heq⟩ : ∃ timer, (timer = true → s.pollEventsTimer = true) ∧
        next sync p s .dispose =
          { s with pollEventsTimer := timer, startedToDispose := true }.emitDisposed := by
      by_cases hk : p.kind = .server
      · exact ⟨false, (fun h => by cases h),
          by simp [next, State.dispose, State.clearTimers, hk, hs, hstart]⟩
      · exact ⟨s.pollEventsTimer, id, by simp [next, State.dispose, hk, hs, hstart]⟩
    rw [heq]
    refine ⟨rfl, hall, fun hst => ?_, fun htrue => ?_, Or.inl (hphase.mp hasync)⟩
    · rcases List.mem_cons.mp hst with hst | hst
      · cases hst
      · exact hopened hst
    · exact absurd (ht htrue) (by simp [htimer])
  | @disposed v rest hs hq =>
    have hmem : .disposeAsync ∈ s.awaits :=
      mem_awaits.mpr (Or.inl ⟨.ok v, hq ▸ List.mem_cons_self⟩)
    have hfinished : s.asyncSrt.async.disposing = .finished := by
      by_contra hn
      have hle : s.awaits.count .disposeAsync ≤ _ := ha
      rw [if_neg hn] at hle
      have hpos := List.count_pos_iff.mpr hmem
      omega
    have hasync : s.asyncSrt.async.startedToDispose = true := by
      by_contra hn
      have hnot := hphase.mp (by simpa using hn)
      simp [hfinished] at hnot
    have hpop : s.awaits = .disposeAsync :: State.awaits { s with microtasks := rest } :=
      awaits_pop hq rfl
    have heq : next sync p s .resume =
        { s with microtasks := rest, socket := .null }.emitDisposed := by
      simp [next, hq, State.resume]
    rw [heq]
    refine ⟨hw.disposing hasync, fun a hrest => ?_, ?_, fun _ => hasync, Or.inr hfinished⟩
    · -- one exit is awaited, and at the end nothing else
      have hrest : a ∈ State.awaits { s with microtasks := rest } := hrest
      obtain rfl := (hd.gone (ho.exited hmem)).1 a (hpop ▸ List.mem_cons_of_mem _ hrest)
      have hle : s.awaits.count .disposeAsync ≤ _ := ha
      have hpos := List.count_pos_iff.mpr hrest
      rw [if_pos hfinished, hpop, List.count_cons_self] at hle
      omega
    · simp [State.emitDisposed, State.emit, hs]

/-! ## What comes with a step -/

def State.fds (s : State σ ω) : List JSValue := s.connections.map SRTServerConnection.fd

def Await.afterOpened (a : Await) : Bool := a.serving || a = .opening .epollAddUsock

theorem Wired.method_of_queue (h : Wired s) {a : Await} (ha : a ∈ s.queue) : a.method ≠ none := by
  have hc := h.invariant.correlated
  cases hw : s.asyncSrt.async.worker with
  | false => simp [State.queue, hc.dropped hw] at ha
  | true =>
    rw [State.queue, hc.waiting hw, List.mem_map] at ha
    obtain ⟨cb, hcb, rfl⟩ := ha
    obtain ⟨q, hq, rfl⟩ := List.mem_map.mp (List.mem_of_mem_drop hcb)
    simp [h.matched q hq]

theorem Wired.fds_next (hw : Wired s) (he : Enabled s e) : s.fds <+: (next sync p s e).fds := by
  by_cases hcon : e = .resume ∧ s.connecting.isSome = true
  · obtain ⟨rfl, hcon⟩ := hcon
    obtain ⟨fd, v, rest, hq⟩ := Announces.exists_of_connecting hcon
    rw [Announces.next_connects hq]
    exact ⟨[fd.toValue], by
      simp [State.fds, State.connect, State.emit, SRTServerConnection.construct]⟩
  · have hkept : (_, (next sync p s e).connectionMap) = (_, s.connectionMap) :=
      Announces.kept hw he hcon
    rw [State.fds, State.fds, (Prod.mk.inj hkept).1]

theorem Change.socket_created (hc : Change sync p s e t) (hw : Wired s) (ht : t.socket ≠ .null) :
    s.socket ≠ .null ∨ .created ∈ t.log := by
  cases hc with
  | turns hx _ hturn =>
    have hsame := hx.same
    have hf := hturn.sends.fields
    simp only [Prod.mk.injEq] at hsame hf
    exact Or.inl (by rwa [hf.1, hsame.2.1] at ht)
  | delivers he =>
    obtain ⟨-, -, -, -, -, hf⟩ := hw.delivers he
    simp only [Prod.mk.injEq] at hf
    exact Or.inl (hf.1 ▸ ht)
  | created => exact Or.inr (List.mem_append_right _ List.mem_cons_self)
  | closes _ hs => exact Or.inl hs
  | closed _ hq =>
    obtain ⟨hf, -⟩ := (hw.pop hq).disposeAsync_frame
    simp only [Prod.mk.injEq] at hf
    exact Or.inl (hf.1 ▸ ht)
  | disposed => exact absurd rfl ht
  | creates | vacuous | executes | waits | terminates | exits | env => exact Or.inl ht

theorem Change.timer_armed (hc : Change sync p s e t) (hw : Wired s)
    (ht : t.pollEventsTimer = true) :
    s.pollEventsTimer = true ∨ .epollUWait ∈ s.awaits := by
  cases hc with
  | turns hx _ hturn =>
    rcases hturn.timer ht with htimer | ⟨events, rfl⟩
    · cases hx with
      | user | await | listeners => exact Or.inl htimer
      | timer => cases htimer
    · cases hx with
      | await hs hq =>
        exact Or.inr (SocketAsync.mem_awaits.mpr (Or.inl ⟨_, hq ▸ List.mem_cons_self⟩))
  | delivers he =>
    obtain ⟨-, -, -, -, -, hf⟩ := hw.delivers he
    simp only [Prod.mk.injEq] at hf
    exact Or.inl (hf.2.2.2.2.2.1 ▸ ht)
  | @closes timer h =>
    obtain ⟨-, hf, -⟩ := (hw.closing timer).post_sends (simple_close s.socket) .disposeClose
    simp only [Prod.mk.injEq] at hf
    exact Or.inl (h (hf.2.2.1 ▸ ht))
  | vacuous h => exact Or.inl (h ht)
  | closed =>
    simp only [State.disposeAsync, State.awaitDisposed] at ht
    split at ht <;> exact Or.inl ht
  | creates | created | disposed | executes | waits | terminates | exits | env => exact Or.inl ht

theorem Change.stack_opened (hc : Change sync p s e t) (hw : Wired s) (ht : .opened ∈ t.stack) :
    .opened ∈ s.stack ∨ e = .resume ∧ ∃ v rest, v ≠ .number SRT_ERROR ∧
      s.microtasks = (.opening .epollCreate, .ok v) :: rest := by
  have hcons : ∀ {f}, f ≠ .opened → .opened ∈ f :: s.stack → .opened ∈ s.stack := fun hne hm =>
    (List.mem_cons.mp hm).resolve_left fun he => hne he.symm
  cases hc with
  | turns hx _ hturn =>
    rcases hturn.stack _ ht with hs | ⟨-, hs | ⟨-, v, hv, rfl, -⟩⟩
    · exact Or.inl (hx.stack _ hs)
    · cases hs
    · cases hx with
      | await hs hq => exact Or.inr ⟨rfl, v, _, hv, hq⟩
  | delivers he =>
    obtain ⟨-, -, -, -, -, hf⟩ := hw.delivers he
    simp only [Prod.mk.injEq] at hf
    exact Or.inl (hf.2.2.2.1 ▸ ht)
  | created | vacuous | disposed => exact Or.inl (hcons (by simp) ht)
  | @closes timer h =>
    obtain ⟨-, hf, -⟩ := (hw.closing timer).post_sends (simple_close s.socket) .disposeClose
    simp only [Prod.mk.injEq] at hf
    exact Or.inl (hf.1 ▸ ht)
  | closed _ hq =>
    obtain ⟨hf, -⟩ := (hw.pop hq).disposeAsync_frame
    simp only [Prod.mk.injEq] at hf
    exact Or.inl (hf.2.2.2.2.1 ▸ ht)
  | creates | executes | waits | terminates | exits | env => exact Or.inl ht

theorem Wired.closing_next (hw : Wired s) (he : Enabled s e) {fd : ℤ}
    (ha : .handling (.close fd) ∈ (next sync p s e).awaits) :
    .handling (.close fd) ∈ s.awaits ∨ ∃ c, s.lookup (.number fd) = some c := by
  have hnext : Wired (next sync p s e) := step_wired hw he
  obtain ⟨r, hr⟩ := (mem_awaits.mp ha).resolve_right fun hq => hnext.method_of_queue hq rfl
  by_cases hnone : ClosesNone s e
  · have hs : Serves s e (next sync p s e) := hw.serves he
    have hkeeps : ∀ {u}, Keeps s u → (.handling (.close fd), r) ∈ u.microtasks →
        .handling (.close fd) ∈ s.awaits := by
      intro u k hu
      rcases k.microtasks _ hu with hu | hu
      · exact mem_awaits.mpr (Or.inl ⟨r, hu⟩)
      · cases hu
    generalize next sync p s e = t at hs hr
    left
    cases hs with
    | keeps k | connects k | disconnects k => exact hkeeps k hr
    | closes _ _ _ hn => exact absurd hnone hn
  · cases e with
    | closeConnection c =>
      left
      have hsame : (s.closeConnection c .user).microtasks = s.microtasks := by
        unfold State.closeConnection
        dsimp only
        split
        · rfl
        · rename_i conn hconn
          rw [if_pos (hw.closed conn (List.mem_of_getElem? hconn))]
          rfl
      exact mem_awaits.mpr (Or.inl ⟨r, hsame ▸ hr⟩)
    | resume =>
      obtain ⟨event, v, rest, c, hq, hsock, hbroken, hl⟩ : ∃ event v rest c,
          s.microtasks = (.handling (.getSockState event), .ok v) :: rest ∧
            s.socket ≠ .number event.socket ∧ State.brokenOrClosed v = true ∧
              s.lookup (.number event.socket) = some c := by
        simp only [ClosesNone, State.disconnecting] at hnone
        split at hnone
        · rename_i event v rest hq
          split at hnone
          · rename_i hcond
            obtain ⟨c, hc⟩ := Option.ne_none_iff_exists'.mp hnone
            exact ⟨event, v, rest, c, hq, hcond.1, hcond.2, hc⟩
          · exact absurd rfl hnone
        · exact absurd rfl hnone
      have hpop : Wired { s with microtasks := rest } := hw.pop hq
      have heq : next sync p s .resume =
          State.closeConnection { s with microtasks := rest } c (.handler event.socket) := by
        have hl' : State.lookup { s with microtasks := rest } (.number event.socket) = some c := hl
        simp [next, hq, State.resume, State.resumeHandle, State.onStatus, hsock, hbroken, hl']
      rw [heq] at hr
      have hmicro : (.handling (.close fd), r) ∈ rest ∨ fd = event.socket := by
        simp only [State.closeConnection] at hr
        split at hr
        · exact Or.inl hr
        · rename_i conn hconn
          rw [if_pos (hpop.closed conn (List.mem_of_getElem? hconn))] at hr
          rcases List.mem_append.mp hr with hr | hr
          · exact Or.inl hr
          · right
            simpa using (Prod.mk.inj (List.mem_singleton.mp hr)).1
      rcases hmicro with hmem | rfl
      · exact Or.inl (mem_awaits.mpr (Or.inl ⟨r, hq ▸ List.mem_cons_of_mem _ hmem⟩))
      · exact Or.inr ⟨c, hl⟩
    | _ => exact absurd trivial hnone

/-! ## The invariant -/

structure Narrated (s : State σ ω) : Prop where
  order : InOrder s.fds s.log
  counted : s.log.countP Emission.isConnection = s.connections.length
  announced : ∀ c < s.connections.length, .connection c ∈ s.log
  map : ∀ k c, (k, c) ∈ s.connectionMap → s.fds[c]? = some k
  created : (s.socket ≠ .null ∨ ∃ step, .opening step ∈ s.awaits) → .created ∈ s.log
  opened : (∃ a ∈ s.awaits, a.afterOpened = true) ∨ .opened ∈ s.stack ∨ s.pollEventsTimer = true →
    .opened ∈ s.log
  closing : ∀ fd, .handling (.close fd) ∈ s.awaits → ∃ c : ℕ, s.fds[c]? = some (.number fd)
  ended : .disposed ∈ s.log → Over s

theorem initial_narrated (n : σ) : Narrated (initial n : State σ ω) := by
  constructor <;> simp [initial, Backed.initial, AsyncApi.initial, State.awaits, InOrder]

namespace Narrated

theorem created_of_opened (h : Narrated s) (ho : .opened ∈ s.log) : .created ∈ s.log := by
  obtain ⟨k, hk⟩ := List.mem_iff_getElem?.mp ho
  exact List.mem_of_mem_take (h.order k _ hk).1

theorem needs (h : Narrated s) {y : Emission} (hc : Cause s e y) :
    Needs s.fds s.log y ∧ (.disposed ∈ s.log → y = .created) := by
  have hawait : ∀ {a r rest}, s.microtasks = (a, r) :: rest → a ∈ s.awaits := fun hq =>
    mem_awaits.mpr (Or.inl ⟨_, hq ▸ List.mem_cons_self⟩)
  have hlate : ∀ {a r rest}, s.microtasks = (a, r) :: rest → a ≠ .create →
      .disposed ∈ s.log → y = .created := fun hq hne hd =>
    absurd ((h.ended hd).awaits _ (hawait hq)) hne
  have hlisted : ∀ {c k}, s.fds[c]? = some k → .connection c ∈ s.log := fun hc =>
    h.announced _ (by simpa [State.fds] using (List.getElem?_eq_some_iff.mp hc).1)
  cases hc with
  | created hq => exact ⟨trivial, fun _ => rfl⟩
  | opened hq => exact ⟨h.created (Or.inr ⟨_, hawait hq⟩), hlate hq (by simp)⟩
  | connection hq =>
    exact ⟨⟨h.opened (Or.inl ⟨_, hawait hq, rfl⟩), h.counted.symm⟩, hlate hq (by simp)⟩
  | disconnection hq =>
    obtain ⟨c, hc⟩ := h.closing _ (hawait hq)
    exact ⟨⟨c, hc, hlisted hc⟩, hlate hq (by simp)⟩
  | data hq hl =>
    obtain ⟨l, r, he, -⟩ := List.lookup_eq_some_iff.mp hl
    have hmap := h.map _ _ (he ▸ List.mem_append_right _ List.mem_cons_self)
    exact ⟨hlisted hmap, hlate hq (by simp)⟩
  | vacuous hs hd =>
    exact ⟨trivial, fun hm => absurd (hd.symm.trans (h.ended hm).started) (by simp)⟩
  | disposed hs hq => exact ⟨trivial, hlate hq (by simp)⟩

theorem step_order (h : Narrated s) (hw : Wired s) (he : Enabled s e) :
    InOrder (next sync p s e).fds (next sync p s e).log := by
  have hfds : s.fds <+: (next sync p s e).fds := hw.fds_next he
  have hl : Logs s e (next sync p s e) := hw.logs he
  rcases hl with hl | ⟨y, hl, hc⟩
  · rw [hl]
    exact h.order.mono hfds
  · obtain ⟨hn, hlast⟩ := h.needs hc
    rw [hl]
    exact (h.order.mono hfds).append (hn.mono hfds) hlast

/-- A new connection gets the next number and is announced at once. -/
theorem step_listed (h : Narrated s) (hw : Wired s) (he : Enabled s e) :
    (next sync p s e).log.countP Emission.isConnection = (next sync p s e).connections.length ∧
      (∀ c < (next sync p s e).connections.length, .connection c ∈ (next sync p s e).log) ∧
      ∀ k c, (k, c) ∈ (next sync p s e).connectionMap → (next sync p s e).fds[c]? = some k := by
  by_cases hcon : e = .resume ∧ s.connecting.isSome = true
  · obtain ⟨rfl, hcon⟩ := hcon
    obtain ⟨fd, v, rest, hq⟩ := Announces.exists_of_connecting hcon
    rw [Announces.next_connects hq]
    have hlog : (State.connect { s with microtasks := rest } fd).log =
        s.log ++ [.connection s.connections.length] := rfl
    have hfds : (State.connect { s with microtasks := rest } fd).fds = s.fds ++ [fd.toValue] := by
      simp [State.fds, State.connect, State.emit, SRTServerConnection.construct]
    have hlength : (State.connect { s with microtasks := rest } fd).connections.length =
        s.connections.length + 1 := by simp [State.connect, State.emit]
    rw [hlog, hfds, hlength]
    refine ⟨?_, fun c hc => ?_, fun k c hm => ?_⟩
    · rw [List.countP_append, h.counted]
      rfl
    · rcases Nat.lt_succ_iff_lt_or_eq.mp hc with hc | rfl
      · exact List.mem_append_left _ (h.announced c hc)
      · exact List.mem_append_right _ List.mem_cons_self
    · have hm : (k, c) ∈ (State.setConnection { s with microtasks := rest } fd.toValue
          s.connections.length).connectionMap := hm
      rcases mem_setConnection hm with hm | ⟨rfl, rfl⟩
      · have hk := h.map k c hm
        rwa [List.getElem?_append_left (List.getElem?_eq_some_iff.mp hk).1]
      · simp [State.fds]
  · have hkept : ((next sync p s e).connections.map SRTServerConnection.fd,
        (next sync p s e).connectionMap) =
        (s.connections.map SRTServerConnection.fd, s.connectionMap) := Announces.kept hw he hcon
    obtain ⟨hfds, hmap⟩ := Prod.mk.inj hkept
    have hlength : (next sync p s e).connections.length = s.connections.length := by
      simpa using congrArg List.length hfds
    have hl : Logs s e (next sync p s e) := hw.logs he
    have hmem : ∀ y ∈ s.log, y ∈ (next sync p s e).log := by
      intro y hy
      rcases hl with hl | ⟨z, hl, -⟩
      · exact hl ▸ hy
      · exact hl ▸ List.mem_append_left _ hy
    rw [hlength, hmap, State.fds, hfds]
    refine ⟨?_, fun c hc => hmem _ (h.announced c hc), h.map⟩
    rcases hl with hl | ⟨z, hl, hc⟩
    · rw [hl, h.counted]
    · rw [hl, List.countP_append, h.counted]
      cases hc with
      | connection hq => exact absurd ⟨rfl, by simp [State.connecting, hq]⟩ hcon
      | created | opened | disconnection | data | vacuous | disposed => rfl

theorem log_grows (hw : Wired s) (he : Enabled s e) {y : Emission} (hy : y ∈ s.log) :
    y ∈ (next sync p s e).log := by
  have hl : Logs s e (next sync p s e) := hw.logs he
  rcases hl with hl | ⟨z, hl, -⟩
  · exact hl ▸ hy
  · exact hl ▸ List.mem_append_left _ hy

/-- What is called after the event `opened` is called by what began after it. -/
theorem opened_of_prompted (h : Narrated s) {x : Prompt} (hx : Prompted s e x u) {a : Await}
    {post : AsyncSRTWorkerPost} (hc : Closes x a ∨ Calls p u x a post)
    (ha : a.afterOpened = true) : .opened ∈ s.log := by
  have hawait : ∀ {b r}, x = .await b r → b.afterOpened = true → .opened ∈ s.log := by
    rintro b r rfl hb
    cases hx with
    | await hs hq =>
      exact h.opened (Or.inl ⟨b, mem_awaits.mpr (Or.inl ⟨r, hq ▸ List.mem_cons_self⟩), hb⟩)
  rcases hc with ⟨event, v, fd, rfl, -⟩ | hc
  · exact hawait rfl rfl
  · cases hc with
    | subscribe =>
      cases hx with
      | listeners hs => exact h.opened (Or.inr (Or.inl (hs ▸ List.mem_cons_self)))
    | pollAgain =>
      cases hx with
      | timer hi ht => exact h.opened (Or.inr (Or.inr ht))
    | poll | status | accept | add => exact hawait rfl rfl
    | bind | connect | listen | epollCreate => cases ha

theorem step_opened (h : Narrated s) (hw : Wired s) (he : Enabled s e)
    (ho : (∃ a ∈ (next sync p s e).awaits, a.afterOpened = true) ∨
      .opened ∈ (next sync p s e).stack ∨ (next sync p s e).pollEventsTimer = true) :
    .opened ∈ (next sync p s e).log := by
  have hc : Change sync p s e (next sync p s e) := hw.changes he
  rcases ho with ⟨a, hmem, ha⟩ | hst | ht
  · apply log_grows hw he
    rcases hc.mem_awaits hw hmem with hmem | how | ⟨x, u, hx, hcl | ⟨post, hcall⟩⟩
    · exact h.opened (Or.inl ⟨a, hmem, ha⟩)
    · cases a with
      | create | disposeClose | disposeAsync | closing c caller => cases ha
      | opening step | epollUWait | handling step => cases how
    · have hcloses : Closes x a ∨ Calls p u x a ⟨.close, []⟩ := Or.inl hcl
      exact h.opened_of_prompted hx hcloses ha
    · exact h.opened_of_prompted hx (Or.inr hcall) ha
  · rcases hc.stack_opened hw hst with hst | ⟨rfl, v, rest, hv, hq⟩
    · exact log_grows hw he (h.opened (Or.inr (Or.inl hst)))
    · simp [next, hq, State.resume, State.resumeOpen, State.unlessFailed, hv, State.emit]
  · apply log_grows hw he
    rcases hc.timer_armed hw ht with ht | hmem
    · exact h.opened (Or.inr (Or.inr ht))
    · exact h.opened (Or.inl ⟨_, hmem, rfl⟩)

theorem step_created (h : Narrated s) (hw : Wired s) (he : Enabled s e)
    (hs : (next sync p s e).socket ≠ .null ∨ ∃ step, .opening step ∈ (next sync p s e).awaits) :
    .created ∈ (next sync p s e).log := by
  have hc : Change sync p s e (next sync p s e) := hw.changes he
  rcases hs with hs | ⟨step, hmem⟩
  · rcases hc.socket_created hw hs with hs | hl
    · exact log_grows hw he (h.created (Or.inl hs))
    · exact hl
  apply log_grows hw he
  have hawait : ∀ {x u step r}, Prompted s e x u → x = .await (.opening step) r →
      .created ∈ s.log := by
    rintro x u step r hx rfl
    cases hx with
    | await hst hq =>
      exact h.created (Or.inr ⟨step, mem_awaits.mpr (Or.inl ⟨r, hq ▸ List.mem_cons_self⟩)⟩)
  rcases hc.mem_awaits hw hmem with hmem | how | ⟨x, u, hx, ⟨_, _, _, -, hcl⟩ | ⟨post, hcall⟩⟩
  · exact h.created (Or.inr ⟨step, hmem⟩)
  · cases how
  · cases hcl
  · have hsame := hx.same
    simp only [Prod.mk.injEq] at hsame
    cases hcall with
    | bind _ hs _ | connect _ hs _ => exact h.created (Or.inl (hsame.2.1 ▸ hs))
    | listen | epollCreate => exact hawait hx rfl
    | subscribe =>
      cases hx with
      | listeners hst =>
        exact h.created_of_opened (h.opened (Or.inr (Or.inl (hst ▸ List.mem_cons_self))))

theorem step_over (h : Narrated s) (hw : Wired s) (ho : Ordered s) (hd : Drained s)
    (ha : AwaitsExit s) (he : Enabled s e) (hm : .disposed ∈ (next sync p s e).log) :
    Over (next sync p s e) := by
  have hl : Logs s e (next sync p s e) := hw.logs he
  have hkept : .disposed ∈ s.log → Over (next sync p s e) := fun hm =>
    (h.ended hm).step hw (hw.changes he)
  rcases hl with hl | ⟨y, hl, hc⟩
  · exact hkept (hl ▸ hm)
  · rw [hl] at hm
    rcases List.mem_append.mp hm with hm | hm
    · exact hkept hm
    · rw [← List.mem_singleton.mp hm] at hc
      exact over_of_disposed hw ho hd ha hc

theorem step (h : Narrated s) (hw : Wired s) (ho : Ordered s) (hd : Drained s)
    (ha : AwaitsExit s) (he : Enabled s e) : Narrated (next sync p s e) := by
  have hcounts : (next sync p s e).log.countP Emission.isConnection =
      (next sync p s e).connections.length ∧ _ := h.step_listed hw he
  obtain ⟨hcounted, hannounced, hmap⟩ := hcounts
  have hfds : s.fds <+: (next sync p s e).fds := hw.fds_next he
  refine ⟨h.step_order hw he, hcounted, hannounced, hmap, h.step_created hw he,
    h.step_opened hw he, fun fd hmem => ?_, h.step_over hw ho hd ha he⟩
  have hlisted : ∃ c : ℕ, s.fds[c]? = some (.number fd) := by
    rcases hw.closing_next he hmem with hmem | ⟨c, hl⟩
    · exact h.closing fd hmem
    · obtain ⟨l, r, he, -⟩ := List.lookup_eq_some_iff.mp hl
      exact ⟨c, h.map _ _ (he ▸ List.mem_append_right _ List.mem_cons_self)⟩
  obtain ⟨c, hc⟩ := hlisted
  obtain ⟨rest, hrest⟩ := hfds
  refine ⟨c, ?_⟩
  rw [← hrest, List.getElem?_append_left (List.getElem?_eq_some_iff.mp hc).1]
  exact hc

end Narrated

/-- In every run the events come in the order of the object's life, and each connection that is
made is announced, once and in its turn. -/
theorem events_inOrder (h : (machine sync p).Execution (initial n) s) :
    InOrder s.fds s.log ∧ s.log.filter Emission.isConnection =
      (List.range s.connections.length).map .connection := by
  have main : (machine sync p).Execution (initial n) s ∧ AwaitsExit s ∧ Narrated s := by
    refine h.invariant
      (I := fun s => (machine sync p).Execution (initial n) s ∧ AwaitsExit s ∧ Narrated s)
      ⟨.refl _, Nat.zero_le _, initial_narrated n⟩ fun u e hu he => ?_
    obtain ⟨hrun, ha, hn⟩ := hu
    obtain ⟨hw, ho, -⟩ := execution_grounded hrun
    have hd := execution_drained hrun
    have hc : Case sync u e (next sync p u e) := (step_cases hw he).2
    exact ⟨hrun.tail he, ha.step hw ho hc, hn.step hw ho hd ha he⟩
  have hn := main.2.2
  exact ⟨hn.order, hn.counted ▸ hn.order.announced⟩

/-- A server with one client, from `create` to the end of its disposal. -/
theorem events_inOrder_disposed :
    let s := serverMachine.runTrace (initial .empty)
      (acceptRun ++ [.env (.connectionBreaks 2)] ++ pollBroken ++ disposeRun)
    s.log = [.created, .opened, .connection 0, .disconnection 2, .disposed] ∧
      InOrder s.fds s.log ∧ s.log.filter Emission.isConnection = [.connection 0] := by
  intro s
  have hrun : serverMachine.Execution (initial .empty) s :=
    serverMachine.execution_of_trace _ _ (by decide +kernel)
  obtain ⟨horder, hconnections⟩ := events_inOrder hrun
  have hone : s.connections.length = 1 := by decide
  exact ⟨by decide, horder, by rw [hconnections, hone]; rfl⟩

/-! ## Accepted sockets -/

/-- An accepted socket stays open on the side of the server: each connection is listed in
`later` as it was, with an object that is closed and a native socket that is not. -/
structure NeverCloses (lib : Libsrt σ ω) (s later : State σ ω) : Prop where
  listed : ∀ conn ∈ s.connections, later.lookup conn.fd ≠ none
  mute : ∀ conn ∈ later.connections, conn.isClosed = true
  unclosed : ∀ fd, Accepts later fd → ∀ q ∈ later.asyncSrt.async.posted,
    ∀ m, lib.closes m q.2 fd = false

theorem accepted_unclosed (hl : lib.Lawful) (hf : lib.Fresh)
    (h : (machine (nodeSRT lib) p).Execution (initial n) s) {fd : ℤ} (ha : Accepts s fd)
    {q : OnResult Await × AsyncSRTWorkerPost} (hq : q ∈ s.asyncSrt.async.posted) (m : σ) :
    lib.closes m q.2 fd = false := by
  obtain ⟨hw, -, hg⟩ := execution_grounded h
  obtain ⟨herror, -, hmade⟩ := (execution_lasting hl hf h).accepted fd ha
  by_contra hc
  have hown := hg.owned_of_closes hw hq (by simpa using hc)
  exact (hg.makes_of_owned hown).elim herror hmade

theorem execution_listed (h : (machine sync p).Execution (initial n) s) :
    ∀ k ∈ s.fds, s.lookup k ≠ none := by
  have main : Wired s ∧ ∀ k ∈ s.fds, s.lookup k ≠ none := by
    refine h.invariant (I := fun s => Wired s ∧ ∀ k ∈ s.fds, s.lookup k ≠ none)
      ⟨initial_wired n, fun k hk => by cases hk⟩ fun u e hu he => ?_
    obtain ⟨hw, hl⟩ := hu
    refine ⟨step_wired (p := p) hw he, fun k hk => ?_⟩
    by_cases hcon : e = .resume ∧ u.connecting.isSome = true
    · obtain ⟨rfl, hcon⟩ := hcon
      obtain ⟨fd, v, rest, hq⟩ := Announces.exists_of_connecting hcon
      have heq : next sync p u .resume = { u with microtasks := rest }.connect fd :=
        Announces.next_connects hq
      change k ∈ (next sync p u .resume).fds at hk
      change (next sync p u .resume).lookup k ≠ none
      rw [heq] at hk ⊢
      have hk : k = fd.toValue ∨ k ∈ u.fds := by
        simpa [State.fds, State.connect, State.emit, SRTServerConnection.construct, or_comm,
          eq_comm] using hk
      exact lookup_setConnection (s := { u with microtasks := rest }) (hk.imp_right (hl k))
    · have hkept : ((next sync p u e).fds, (next sync p u e).connectionMap) =
          (u.fds, u.connectionMap) := Announces.kept hw he hcon
      have hfds : (next sync p u e).fds = u.fds := (Prod.mk.inj hkept).1
      exact lookup_next hw he (hl k (hfds ▸ hk))
  exact main.2

/-- Connections that were announced stay in the map for good, whoever closes them and whether
the clients are there or not. -/
theorem connections_never_closed (hl : lib.Lawful) (hf : lib.Fresh)
    (h : (machine (nodeSRT lib) p).Execution (initial n) s)
    (k : (machine (nodeSRT lib) p).Execution s t) : NeverCloses lib s t := by
  have hrun := h.trans k
  have hlisted : ∀ conn ∈ s.connections, t.lookup conn.fd ≠ none := by
    intro conn hconn
    have main : Wired t ∧ t.lookup conn.fd ≠ none := by
      refine k.invariant (I := fun t => Wired t ∧ t.lookup conn.fd ≠ none)
        ⟨execution_wired h, execution_listed h _ (List.mem_map_of_mem hconn)⟩ fun u e hu he => ?_
      exact ⟨step_wired (p := p) hu.1 he, lookup_next hu.1 he hu.2⟩
    exact main.2
  exact ⟨hlisted, (execution_wired hrun).closed,
    fun fd ha q hq m => accepted_unclosed hl hf hrun ha hq m⟩

/-- The user closes the connection of the client, whose socket then breaks and is reported,
and the server is disposed of. -/
theorem connections_never_closed_disposed :
    let s := serverMachine.runTrace (initial .empty) acceptRun
    let t := serverMachine.runTrace s
      ([.closeConnection 0, .env (.connectionBreaks 2)] ++ pollBroken ++ disposeRun)
    s.fds = [.number 2] ∧ Accepts t 2 ∧ t.socket = .null ∧ NeverCloses tableLibsrt s t := by
  intro s t
  refine ⟨by decide, ⟨1, by decide⟩, by decide, ?_⟩
  exact connections_never_closed table_lawful table_fresh
    (serverMachine.execution_of_trace _ _ (by decide))
    (serverMachine.execution_of_trace _ _ (by decide))

end SocketAsync
