import NodeSrt.SocketAsyncCalls
import NodeSrt.SocketAsyncChanges

/-! # The polling of a server

`_pollEvents` calls itself: `open` starts it, each poll sets the timer of the next one. What
an opening starts does not fork, and it ends only where the object is disposed of, where the
epoll has the id 0, or where the worker replies with something else than a list. -/
namespace SocketAsync

open AsyncValues
open TransitionSystem
open AsyncApi
open NativeSrt

variable {σ ω : Type*} {s t u : State σ ω} {p : Config} {e : Event ω} {sync : SyncSRT σ ω}

/-- The polls the worker was asked for, and the timer of the next one. -/
def State.polls (s : State σ ω) : ℕ := s.awaits.count .epollUWait + s.pollEventsTimer.toNat

def State.opened (s : State σ ω) : ℕ := s.returns.count (.opening, .ok .this)

def State.broken (s : State σ ω) : ℕ := s.unhandled.count .typeError

/-- `_pollEvents` is to be called: the timer is set, or the socket of an opening was added. -/
def State.Due (s : State σ ω) : Prop :=
  s.pollEventsTimer = true ∨ ∃ v, (.opening .epollAddUsock, .ok v) ∈ s.microtasks

/-- What a step does to the polling. -/
inductive Polling (s t : State σ ω) : Prop
  | keeps (hp : t.polls = s.polls) (ho : t.opened = s.opened) (hb : t.broken = s.broken)
  | connects (hc : .opening .connect ∈ s.awaits) (hp : t.polls = s.polls)
      (ho : s.opened ≤ t.opened) (hb : t.broken = s.broken)
  | opens (hp : t.polls = s.polls + 1) (ho : t.opened = s.opened + 1) (hb : t.broken = s.broken)
  | again (hp : t.polls ≤ s.polls) (hpos : 0 < t.polls) (ho : t.opened = s.opened)
      (hb : t.broken = s.broken)
  | breaks {v : ReturnValue} (hv : (.epollUWait, .ok v) ∈ s.microtasks)
      (hl : ∀ events, v ≠ .epollResults events) (hp : t.polls + 1 = s.polls)
      (ho : t.opened = s.opened) (hb : t.broken = s.broken + 1)
  | fails {f : Failure} (hf : (.epollUWait, .error f) ∈ s.microtasks) (hp : t.polls + 1 = s.polls)
      (ho : t.opened = s.opened) (hb : t.broken = s.broken)
  | stops (hd : s.epid = .number 0 ∧ s.Due ∨ t.startedToDispose = true) (hp : t.polls ≤ s.polls)
      (ho : s.opened ≤ t.opened) (hb : t.broken = s.broken)

/-! ## What the functions leave -/

theorem post_rest (s : State σ ω) (c : ApiCall) (a : Await) :
    ((s.post c a).pollEventsTimer, (s.post c a).returns, (s.post c a).unhandled) =
      (s.pollEventsTimer, s.returns, s.unhandled) := by
  unfold State.post
  dsimp only
  split
  · unfold State.wakeSettled
    split <;> rfl
  all_goals rfl

@[simp] theorem post_timer (s : State σ ω) (c : ApiCall) (a : Await) :
    (s.post c a).pollEventsTimer = s.pollEventsTimer := congrArg Prod.fst (post_rest s c a)

@[simp] theorem post_opened (s : State σ ω) (c : ApiCall) (a : Await) :
    (s.post c a).opened = s.opened :=
  congrArg (fun r => r.2.1.count (Call.opening, .ok .this)) (post_rest s c a)

@[simp] theorem post_broken (s : State σ ω) (c : ApiCall) (a : Await) :
    (s.post c a).broken = s.broken :=
  congrArg (fun r => r.2.2.count Failure.typeError) (post_rest s c a)

def State.notes (s : State σ ω) : Bool × ℕ × ℕ := (s.pollEventsTimer, s.opened, s.broken)

@[simp] theorem post_notes (s : State σ ω) (c : ApiCall) (a : Await) :
    (s.post c a).notes = s.notes := by
  simp [State.notes]

theorem ret_notes (s : State σ ω) {call : Call} {r : Except Failure CallValue}
    (h : (call, r) ≠ (.opening, .ok .this)) : (s.ret call r).notes = s.notes := by
  have hcount : [(call, r)].count (Call.opening, Except.ok CallValue.this) = 0 := by
    simpa [List.count_singleton] using h
  simp [State.notes, State.opened, State.broken, State.ret, List.count_append, hcount]

theorem reject_notes (s : State σ ω) {f : Failure} (h : f ≠ .typeError) :
    (s.reject f).notes = s.notes := by
  have hcount : [f].count Failure.typeError = 0 := by simpa [List.count_singleton] using h
  simp [State.notes, State.opened, State.broken, State.reject, List.count_append, hcount]

theorem unlessFailed_notes {v : ReturnValue} {f : SocketError} (h : t.notes = s.notes) :
    (s.unlessFailed v f t).notes = s.notes := by
  unfold State.unlessFailed
  split
  · exact ret_notes s (by simp)
  · exact h

theorem openSocket_notes (p : Config) (s : State σ ω) : (s.openSocket p).notes = s.notes := by
  unfold State.openSocket State.doOpen
  split
  · exact ret_notes s (by simp)
  split
  · exact ret_notes s (by simp)
  split
  · exact post_notes _ _ _
  split
  · exact ret_notes s (by simp)
  · exact post_notes _ _ _

theorem closeReturn_notes (s : State σ ω) (c : ℕ) (r : Except Failure ReturnValue)
    (caller : CloseCaller) : (s.closeReturn c r caller).notes = s.notes := by
  cases caller with
  | user => exact ret_notes s (by simp)
  | handler fd => rfl

theorem closeConnection_notes (s : State σ ω) (c : ℕ) (caller : CloseCaller) :
    (s.closeConnection c caller).notes = s.notes := by
  unfold State.closeConnection
  dsimp only
  split
  · rfl
  split
  · exact closeReturn_notes _ _ _ _
  · rfl

theorem handleEvents_notes (s : State σ ω) (events : List SRTEpollResult) :
    (events.foldl State.handleEvent s).notes = s.notes := by
  induction events generalizing s with
  | nil => rfl
  | cons event events ih => exact (ih (s.handleEvent event)).trans (post_notes _ _ _)

theorem onStatus_notes (s : State σ ω) (event : SRTEpollResult) (status : ReturnValue) :
    (s.onStatus event status).notes = s.notes := by
  unfold State.onStatus
  split
  · split
    · exact post_notes _ _ _
    · rfl
  split
  · split
    · exact closeConnection_notes _ _ _
    · rfl
  · split
    · rfl
    · exact reject_notes s (by simp)

theorem resumeHandle_notes (s : State σ ω) (v : ReturnValue) (step : HandleStep) :
    (s.resumeHandle v step).notes = s.notes := by
  cases step with
  | getSockState event => exact onStatus_notes s event v
  | accept => exact post_notes _ _ _
  | epollAddUsock fd | close fd => rfl

theorem afterListeners_notes (s : State σ ω) (f : Frame) :
    (s.afterListeners f).notes = s.notes := by
  cases f with
  | created | disposed => exact ret_notes _ (by simp)
  | opened => exact post_notes _ _ _
  | connection | disconnection | data c => rfl
  | closing c caller =>
    simp only [State.afterListeners, State.postClose]
    split
    · rfl
    · exact post_notes _ _ _
  | closed c caller v => exact closeReturn_notes _ _ _ _

theorem listenerThrew_notes (s : State σ ω) (f : Frame) : (s.listenerThrew f).notes = s.notes := by
  cases f with
  | created | opened | disposed => exact ret_notes _ (by simp)
  | connection | disconnection | data c => exact reject_notes s (by simp)
  | closing c caller | closed c caller v => exact closeReturn_notes _ _ _ _

/-! ## Awaits no function calls for -/

/-- The step starts a function that polls, or one that goes on after a poll. -/
def Polls (s : State σ ω) (e : Event ω) : Prop :=
  e = .pollTimer ∨ e = .resume ∧ ∃ a r rest, s.microtasks = (a, r) :: rest ∧
    (a = .epollUWait ∨ a = .opening .epollAddUsock)

theorem Prompted.not_polls {x : Prompt} (hx : Prompted s e x u) (hn : ¬ Polls s e)
    (post : AsyncSRTWorkerPost) : ¬ Calls p u x .epollUWait post := by
  intro hc
  cases hx with
  | user | listeners => cases hc
  | @await a r rest hs hq =>
    have hne : a ≠ .opening .epollAddUsock := fun ha =>
      hn (Or.inr ⟨rfl, a, r, rest, hq, Or.inr ha⟩)
    cases hc
    exact hne rfl
  | timer => exact hn (Or.inl rfl)

theorem Change.not_polls (hc : Change sync p s e t) (hw : Wired s) (hn : ¬ Polls s e) :
    t.awaits.count .epollUWait = s.awaits.count .epollUWait ∧
      ∀ f, (.epollUWait, .error f) ∈ t.microtasks → (.epollUWait, .error f) ∈ s.microtasks := by
  have hruns : ∀ r rest, e = .resume → s.microtasks ≠ (.epollUWait, r) :: rest :=
    fun r rest he hq => hn (Or.inr ⟨he, .epollUWait, r, rest, hq, Or.inl rfl⟩)
  have hcloses : ∀ {x}, ¬ Closes x .epollUWait := by
    rintro x ⟨_, _, _, -, he⟩
    cases he
  refine ⟨hc.count_awaits hw rfl hruns fun x u hx => ⟨hcloses, hx.not_polls hn⟩, fun f hf => ?_⟩
  by_cases hd : e = .deliver
  · subst hd
    cases hc with
    | turns hx => cases hx with | user he => cases he
    | delivers he =>
      obtain ⟨a, v, -, -, hm, -⟩ := hw.delivers he
      rw [hm] at hf
      simp at hf
  · have hcount := hc.count_microtasks hw hd (y := (.epollUWait, .error f)) rfl
      (fun rest he hq => hruns _ rest he hq)
      fun x u hx => ⟨fun hx => hcloses hx.1, fun ⟨⟨post, hcall⟩, _⟩ => hx.not_polls hn post hcall⟩
    exact List.count_pos_iff.mp (hcount ▸ List.count_pos_iff.mpr hf)

/-! ## Steps -/

theorem Polling.of_notes (hn : t.notes = s.notes)
    (hc : t.awaits.count .epollUWait = s.awaits.count .epollUWait) : Polling s t := by
  simp only [State.notes, Prod.mk.injEq] at hn
  exact .keeps (by rw [State.polls, State.polls, hn.1, hc]) hn.2.1 hn.2.2

theorem Polling.of_started (hd : t.startedToDispose = true)
    (ht : t.pollEventsTimer = true → s.pollEventsTimer = true)
    (ho : t.opened = s.opened) (hb : t.broken = s.broken)
    (hc : t.awaits.count .epollUWait = s.awaits.count .epollUWait) : Polling s t := by
  refine .stops (Or.inr hd) ?_ ho.ge hb
  rw [State.polls, State.polls, hc]
  exact Nat.add_le_add_left (Bool.toNat_le_toNat ht) _

theorem awaitDisposed_notes (s : State σ ω) (started : Bool) :
    (s.awaitDisposed started).notes = s.notes := by
  unfold State.awaitDisposed
  split <;> rfl

theorem create_notes (s : State σ ω) : s.create.notes = s.notes := by
  unfold State.create
  dsimp only
  split
  · exact ret_notes _ (by simp)
  split
  · exact ret_notes _ (by simp)
  · exact post_notes _ _ _

theorem deliver_notes (s : State σ ω) : s.deliver.notes = s.notes := by
  unfold State.deliver
  dsimp only
  split
  · unfold State.wakeSettled
    split <;> rfl
  · rfl

def Untyped (s : State σ ω) : Prop := ∀ a f, (a, .error f) ∈ s.microtasks → f ≠ .typeError

theorem resume_notes {a : Await} {r : Except Failure ReturnValue}
    (hr : ∀ f, r = .error f → f ≠ .typeError)
    (ha : a ≠ .epollUWait ∧ a ≠ .opening .epollAddUsock ∧ a ≠ .opening .connect) :
    (s.resume a r).notes = s.notes := by
  cases a with
  | create =>
    cases r with
    | ok v => rfl
    | error f => exact ret_notes _ (by simp)
  | disposeClose =>
    cases r with
    | ok v => exact awaitDisposed_notes _ _
    | error f => exact ret_notes _ (by simp)
  | disposeAsync =>
    cases r with
    | ok v => rfl
    | error f => exact ret_notes _ (by simp)
  | opening step =>
    cases r with
    | error f => exact ret_notes _ (by simp)
    | ok v =>
      cases step with
      | bind | listen => exact unlessFailed_notes (post_notes _ _ _)
      | epollCreate => exact unlessFailed_notes rfl
      | epollAddUsock => exact absurd rfl ha.2.1
      | connect => exact absurd rfl ha.2.2
  | epollUWait => exact absurd rfl ha.1
  | handling step =>
    cases r with
    | ok v => exact resumeHandle_notes s v step
    | error f => exact reject_notes s (hr f rfl)
  | closing c caller =>
    cases r with
    | ok v => rfl
    | error f => exact closeReturn_notes _ _ _ _

theorem dispose_notes (hw : Wired s) : (s.dispose p).startedToDispose = true ∧
    ∃ timer, (timer = true → s.pollEventsTimer = true) ∧
      (s.dispose p).notes = (timer, s.opened, s.broken) := by
  obtain ⟨timer, ht, e⟩ : ∃ timer, (timer = true → s.pollEventsTimer = true) ∧
      (if p.kind = .server then s.clearTimers else s) = { s with pollEventsTimer := timer } := by
    split
    · exact ⟨false, (fun he => by cases he), rfl⟩
    · exact ⟨s.pollEventsTimer, id, rfl⟩
  simp only [State.dispose, e]
  by_cases hd : s.startedToDispose = true
  · rw [if_pos hd]
    exact ⟨hd, timer, ht, ret_notes _ (by simp)⟩
  rw [if_neg hd]
  by_cases hs : s.socket = .null
  · rw [if_neg (by simpa using hs)]
    exact ⟨rfl, timer, ht, rfl⟩
  · rw [if_pos (by simpa using hs)]
    obtain ⟨hf, -⟩ := (hw.closing timer).post_sends (simple_close s.socket) .disposeClose
    simp only [Prod.mk.injEq] at hf
    exact ⟨hf.2.1, timer, ht, post_notes _ _ _⟩

theorem step_quiet (hw : Wired s) (hu : Untyped s) (he : Enabled s e) (hn : ¬ Polls s e) :
    Polling s (next sync p s e) := by
  have hc : Change sync p s e (next sync p s e) := hw.changes he
  have hcount := (hc.not_polls hw hn).1
  have quiet : ∀ {t}, next sync p s e = t → t.notes = s.notes → Polling s (next sync p s e) :=
    fun ht hnotes => .of_notes (ht ▸ hnotes) hcount
  cases e with
  | create => exact quiet rfl (create_notes s)
  | opening => exact quiet rfl (openSocket_notes p s)
  | dispose =>
    obtain ⟨hd, timer, ht, hnotes⟩ := dispose_notes (p := p) hw
    simp only [State.notes, Prod.mk.injEq] at hnotes
    exact .of_started hd (fun hf => ht (hnotes.1 ▸ hf)) hnotes.2.1 hnotes.2.2 hcount
  | closeConnection c => exact quiet rfl (closeConnection_notes s c .user)
  | listenerReturn threw =>
    obtain ⟨f, rest, hq⟩ := List.exists_cons_of_ne_nil he
    cases threw with
    | true => exact quiet (by simp [next, hq]) (listenerThrew_notes { s with stack := rest } f)
    | false => exact quiet (by simp [next, hq]) (afterListeners_notes { s with stack := rest } f)
  | resume =>
    obtain ⟨hs, hm⟩ := he
    obtain ⟨⟨a, r⟩, rest, hq⟩ := List.exists_cons_of_ne_nil hm
    have hnext : next sync p s .resume = { s with microtasks := rest }.resume a r := by
      simp [next, hq]
    have hr : ∀ f, r = .error f → f ≠ .typeError := fun f hf => hu a f (by simp [hq, hf])
    have hne : a ≠ .epollUWait ∧ a ≠ .opening .epollAddUsock := by
      constructor <;> intro ha
      · exact hn (Or.inr ⟨rfl, a, r, rest, hq, Or.inl ha⟩)
      · exact hn (Or.inr ⟨rfl, a, r, rest, hq, Or.inr ha⟩)
    by_cases ha : a = .opening .connect
    · subst ha
      cases r with
      | error f => exact quiet hnext (ret_notes _ (by simp))
      | ok v =>
        by_cases hv : v = .number SRT_ERROR
        · refine quiet hnext ?_
          simp only [State.resume, State.resumeOpen, State.unlessFailed, if_pos hv]
          exact ret_notes _ (by simp)
        · have ht : next sync p s .resume =
              { s with microtasks := rest }.ret .opening (.ok .this) := by
            rw [hnext]
            simp [State.resume, State.resumeOpen, State.unlessFailed, hv]
          refine .connects (mem_awaits.mpr (Or.inl ⟨_, hq ▸ List.mem_cons_self⟩)) ?_ ?_ ?_
          · rw [State.polls, State.polls, hcount, ht]
            rfl
          · rw [ht]
            simp [State.opened, State.ret, List.count_append]
          · rw [ht]
            rfl
    · exact quiet hnext (resume_notes (s := { s with microtasks := rest }) hr ⟨hne.1, hne.2, ha⟩)
  | resumeDispose => exact quiet rfl (awaitDisposed_notes _ _)
  | exited code => exact quiet rfl (awaitDisposed_notes _ _)
  | deliver => exact quiet rfl (deliver_notes s)
  | pollTimer => exact absurd (Or.inl rfl) hn
  | exec | pollDispose | env => exact quiet rfl rfl

theorem pollEvents_cases (h : Wired s) :
    ((s.epid = .number 0 ∨ s.startedToDispose = true) ∧ s.pollEvents = s.clearTimers) ∨
      s.pollEvents.notes = s.notes ∧
        s.pollEvents.awaits.count .epollUWait = s.awaits.count .epollUWait + 1 := by
  unfold State.pollEvents
  split
  · rename_i hd
    exact Or.inl ⟨hd.imp_right h.disposing, rfl⟩
  · have hf := (post_frame h.invariant (simple_epollUWait s.epid State.EPOLLUWAIT_TIMEOUT_MS)
      .epollUWait).1
    refine Or.inr ⟨post_notes _ _ _, ?_⟩
    rw [hf.count_eq, List.count_append, List.count_singleton_self]

theorem step_timer (hw : Wired s) (ht : s.pollEventsTimer = true) :
    Polling s (next sync p s .pollTimer) := by
  have hfire : Wired { s with pollEventsTimer := false } :=
    hw.frame rfl (fun _ hx => hx) hw.frames id
  rcases pollEvents_cases hfire with ⟨hd, e⟩ | ⟨hnotes, hcount⟩
  · have e : next sync p s .pollTimer = { s with pollEventsTimer := false } := e
    rw [e]
    refine .stops ?_ (Nat.add_le_add_left (Bool.toNat_le_toNat fun hf => by cases hf) _) le_rfl rfl
    exact hd.imp_left fun hz => ⟨hz, Or.inl ht⟩
  · simp only [State.notes, Prod.mk.injEq] at hnotes
    refine .keeps ?_ hnotes.2.1 hnotes.2.2
    rw [State.polls, State.polls, ht, next, hnotes.1, hcount]
    rfl

theorem step_opens (hw : Wired s) {r : Except Failure ReturnValue}
    {rest : List (Await × Except Failure ReturnValue)}
    (hq : s.microtasks = (.opening .epollAddUsock, r) :: rest) :
    Polling s (next sync p s .resume) := by
  have hnext : next sync p s .resume =
      { s with microtasks := rest }.resume (.opening .epollAddUsock) r := by
    simp [next, hq]
  have hcount : ({ s with microtasks := rest } : State σ ω).awaits.count .epollUWait =
      s.awaits.count .epollUWait := by
    rw [awaits_pop (t := { s with microtasks := rest }) hq rfl, List.count_cons_of_ne (by simp)]
  rw [hnext]
  cases r with
  | error f => exact .of_notes (ret_notes { s with microtasks := rest } (by simp)) hcount
  | ok v =>
    have hret : ∀ u : State σ ω, (u.ret .opening (.ok .this)).opened = u.opened + 1 := by
      intro u
      simp [State.opened, State.ret, List.count_append]
    rcases pollEvents_cases (hw.pop hq) with ⟨hd, e⟩ | ⟨hnotes, hpost⟩
    · simp only [State.resume, State.resumeOpen, e]
      refine .stops ?_ ?_ ((Nat.le_succ _).trans (hret _).ge) rfl
      · exact hd.imp_left fun hz => ⟨hz, Or.inr ⟨v, hq ▸ List.mem_cons_self⟩⟩
      exact Nat.add_le_add hcount.le (Bool.toNat_le_toNat fun hf => by cases hf)
    · simp only [State.notes, Prod.mk.injEq] at hnotes
      refine .opens ?_ ((hret _).trans (congrArg (· + 1) hnotes.2.1)) hnotes.2.2
      have hpolls : { s with microtasks := rest }.pollEvents.polls = s.polls + 1 := by
        rw [State.polls, State.polls, hpost, hcount, hnotes.1]
        exact Nat.add_right_comm _ _ _
      exact hpolls

theorem handleEvents_awaits (p : Config) (h : Wired s) (events : List SRTEpollResult) :
    (events.foldl State.handleEvent s).awaits.count .epollUWait = s.awaits.count .epollUWait ∧
      ∀ r, (.epollUWait, r) ∈ (events.foldl State.handleEvent s).microtasks →
        (.epollUWait, r) ∈ s.microtasks := by
  have hturn : Turn p s (.await .epollUWait (.ok (.epollResults events)))
      (events.foldl State.handleEvent s) := Turn.handleEvents h fun e he => he
  apply hturn.sends.uncalled
  · rintro ⟨_, _, _, he, -⟩
    cases he
  · intro post hc
    cases hc

theorem step_polled (hw : Wired s) (hu : Untyped s) {r : Except Failure ReturnValue}
    {rest : List (Await × Except Failure ReturnValue)}
    (hq : s.microtasks = (.epollUWait, r) :: rest) : Polling s (next sync p s .resume) := by
  have hnext : next sync p s .resume = { s with microtasks := rest }.resume .epollUWait r := by
    simp [next, hq]
  have hcount : s.awaits.count .epollUWait =
      ({ s with microtasks := rest } : State σ ω).awaits.count .epollUWait + 1 := by
    rw [awaits_pop (t := { s with microtasks := rest }) hq rfl, List.count_cons_self]
  have hpolls : ({ s with microtasks := rest } : State σ ω).polls + 1 = s.polls := by
    rw [State.polls, State.polls, hcount]
    exact Nat.add_right_comm _ _ _
  rw [hnext]
  cases r with
  | error f =>
    have hmem : (.epollUWait, .error f) ∈ s.microtasks := hq ▸ List.mem_cons_self
    have hnotes := reject_notes { s with microtasks := rest } (hu _ f hmem)
    simp only [State.notes, Prod.mk.injEq] at hnotes
    exact .fails hmem hpolls hnotes.2.1 hnotes.2.2
  | ok v =>
    simp only [State.resume, State.onEvents]
    split
    · rename_i events
      have hnotes := handleEvents_notes { s with microtasks := rest } events
      have hno := (handleEvents_awaits p (hw.pop hq) events).1
      simp only [State.notes, Prod.mk.injEq] at hnotes
      refine .again ?_ (Nat.succ_pos _) hnotes.2.1 hnotes.2.2
      rw [← hpolls]
      exact Nat.add_le_add (hno.le.trans (Nat.le_add_right _ _)) le_rfl
    · rename_i hl
      refine .breaks (hq ▸ List.mem_cons_self) hl hpolls rfl ?_
      simp [State.broken, State.reject, List.count_append]

theorem step_polling (hw : Wired s) (hu : Untyped s) (he : Enabled s e) :
    Polling s (next sync p s e) := by
  by_cases hn : Polls s e
  · rcases hn with rfl | ⟨rfl, a, r, rest, hq, rfl | rfl⟩
    · exact step_timer hw he.2
    · exact step_polled hw hu hq
    · exact step_opens hw hq
  · exact step_quiet hw hu he hn

/-! ## Runs -/

def isEpid : Outcome → Bool
  | .ok (.number k) => k != 0
  | .ok _ => false
  | .error _ => true

def Numbered (s : State σ ω) : Prop :=
  ∀ y ∈ s.asyncSrt.async.executed, y.1 = epollCreatePost → isEpid y.2 = true

theorem Numbered.epid (h : Numbered s) (hm : Made s s.epid) : ∃ k, s.epid = .number k ∧ k ≠ 0 := by
  obtain ⟨v, hg, he⟩ := hm
  have hid := h _ hg.1 rfl
  cases v with
  | number k => exact ⟨k, he, by simpa [isEpid] using hid⟩
  | _ => cases hid

structure KeepsPolling (p : Config) (s : State σ ω) : Prop where
  untyped : Untyped s
  bounded : s.polls + s.broken ≤ s.opened
  answered : s.startedToDispose = false → Numbered s → ∀ f, (.epollUWait, .error f) ∉ s.microtasks
  alive : p.kind = .server → s.startedToDispose = false → Numbered s → 0 < s.opened →
    0 < s.polls + s.broken

namespace KeepsPolling

theorem untyped_step (h : Untyped s) (hw : Wired s) (he : Enabled s e) :
    Untyped (next sync p s e) := by
  have hc : Change sync p s e (next sync p s e) := hw.changes he
  intro a f hmem
  by_cases hn : e = .deliver
  · subst hn
    obtain ⟨b, v, -, -, hm, -⟩ := hw.delivers he
    have hmem : (a, .error f) ∈ s.deliver.microtasks := hmem
    rw [hm] at hmem
    simp at hmem
  · rcases hc.wakes hw hn _ hmem with hmem | ⟨-, v, hv⟩ | ⟨e, hr⟩ | ⟨hr, -⟩
    · exact h a f hmem
    · cases hv
    · cases hr
      simp
    · cases hr

theorem bounded_step (h : s.polls + s.broken ≤ s.opened) (hp : Polling s t) :
    t.polls + t.broken ≤ t.opened := by
  cases hp <;> omega

theorem sent (hw : Wired s) (hd : s.startedToDispose = false) {k : ℤ} (he : s.epid = .number k)
    (hk : k ≠ 0) : s.pollEvents.microtasks = s.microtasks := by
  have hstart := (hw.async_notCalled hd).1
  have hacc := hw.accepts hd (simple_epollUWait s.epid State.EPOLLUWAIT_TIMEOUT_MS)
    (by simp [he, ApiCall.post, anyUndefined, Slot.toValue])
  unfold State.pollEvents
  rw [if_neg (by simp [he, hk, hstart]),
    post_of_accepts hw.invariant (simple_epollUWait s.epid _) hacc .epollUWait]
  rfl

theorem of_added (hg : Grounded p s) (hw : Wired s) {v : ReturnValue}
    (hr : Replied s (.opening .epollAddUsock) v) (hd : s.startedToDispose = false)
    (hn : Numbered s) : ∃ k, s.epid = .number k ∧ k ≠ 0 :=
  hn.epid (hg.made_of_added hw hr (hw.async_notCalled hd).1)

theorem due (hg : Grounded p s) (hw : Wired s) (hs : s.Due) (hd : s.startedToDispose = false)
    (hn : Numbered s) : ∃ k, s.epid = .number k ∧ k ≠ 0 := by
  rcases hs with ht | ⟨v, hq⟩
  · obtain ⟨v, hr⟩ := hg.timer ht
    obtain ⟨w, hadd⟩ := hg.added_of_polled hr
    exact of_added hg hw hadd hd hn
  · have hr := hg.replied hq (by simp [Await.method]) (Or.inr (hw.async_notCalled hd).1)
    exact of_added hg hw hr hd hn

theorem answered_step (h : KeepsPolling p s) (hg : Grounded p s) (hw : Wired s) (he : Enabled s e)
    (hd : s.startedToDispose = false) (hn : Numbered s) (f : Failure) :
    (.epollUWait, .error f) ∉ (next sync p s e).microtasks := by
  have hnone := h.answered hd hn
  by_cases hp : Polls s e
  · rcases hp with rfl | ⟨rfl, a, r, rest, hq, ha⟩
    · obtain ⟨k, hepid, hk⟩ := due hg hw (Or.inl he.2) hd hn
      have hfire : Wired { s with pollEventsTimer := false } :=
        hw.frame rfl (fun _ hx => hx) hw.frames id
      intro hf
      rw [next, sent hfire hd hepid hk] at hf
      exact hnone f hf
    · have hnext : next sync p s .resume = { s with microtasks := rest }.resume a r := by
        simp [next, hq]
      have hrest : ∀ f, (.epollUWait, .error f) ∉ rest := fun f hf =>
        hnone f (hq ▸ List.mem_cons_of_mem _ hf)
      rw [hnext]
      rcases ha with rfl | rfl
      · cases r with
        | error g => exact absurd (hq ▸ List.mem_cons_self) (hnone g)
        | ok v =>
          simp only [State.resume, State.onEvents]
          split
          · rename_i events
            exact fun hf => hrest f ((handleEvents_awaits p (hw.pop hq) events).2 _ hf)
          · exact hrest f
      · cases r with
        | error g => exact hrest f
        | ok v =>
          obtain ⟨k, hepid, hk⟩ := due hg hw (Or.inr ⟨v, hq ▸ List.mem_cons_self⟩) hd hn
          have hm := sent (hw.pop hq) hd hepid hk
          intro hf
          have hf : (.epollUWait, .error f) ∈ { s with microtasks := rest }.pollEvents.microtasks :=
            hf
          rw [hm] at hf
          exact hrest f hf
  · have hc : Change sync p s e (next sync p s e) := hw.changes he
    exact fun hf => hnone f ((hc.not_polls hw hp).2 f hf)

theorem alive_step (h : KeepsPolling p s) (hg : Grounded p s) (hw : Wired s) (hp : Polling s t)
    (hserver : p.kind = .server) (hconn : .opening .connect ∉ s.awaits)
    (hd : s.startedToDispose = false) (hd' : t.startedToDispose = false) (hn : Numbered s)
    (ho : 0 < t.opened) : 0 < t.polls + t.broken := by
  have hprev := h.alive hserver hd hn
  cases hp with
  | keeps hp ho' hb =>
    rw [hp, hb]
    exact hprev (ho' ▸ ho)
  | connects hc => exact absurd hc hconn
  | opens hp => omega
  | again hp hpos => omega
  | breaks _ _ _ ho' hb => omega
  | fails hf => exact absurd hf (h.answered hd hn _)
  | stops hstop =>
    rcases hstop with ⟨hz, hdue⟩ | hstop
    · obtain ⟨k, hk, hne⟩ := due hg hw hdue hd hn
      rw [hz] at hk
      cases hk
      exact absurd rfl hne
    · simp [hd'] at hstop

end KeepsPolling

theorem Change.unconnected (hc : Change sync p s e t) (hw : Wired s) (hp : p.kind = .server)
    (h : .opening .connect ∉ s.awaits) : .opening .connect ∉ t.awaits := by
  intro ha
  rcases hc.mem_awaits hw ha with ha | ho | ⟨x, u, -, hcl | ⟨post, hcall⟩⟩
  · exact h ha
  · cases ho
  · obtain ⟨_, _, _, -, he⟩ := hcl
    cases he
  · cases hcall with
    | connect hk => simp [hp] at hk

theorem Wired.open_before (hw : Wired s) (he : Enabled s e)
    (hd : (next sync p s e).startedToDispose = false) : s.startedToDispose = false := by
  by_contra hs
  have hcase : Case sync s e (next sync p s e) := (step_cases hw he).2
  exact absurd (hd.symm.trans (hcase.starts hw (by simpa using hs))) (by simp)

theorem KeepsPolling.step (h : KeepsPolling p s) (hg : Grounded p s) (hw : Wired s)
    (hconn : p.kind = .server → .opening .connect ∉ s.awaits) (he : Enabled s e) :
    KeepsPolling p (next sync p s e) := by
  have hc : Change sync p s e (next sync p s e) := hw.changes he
  have hp : Polling s (next sync p s e) := step_polling hw h.untyped he
  have hopen : (next sync p s e).startedToDispose = false → s.startedToDispose = false :=
    hw.open_before he
  have hnum : Numbered (next sync p s e) → Numbered s := fun hn y hy =>
    hn y ((hc.executed hw).subset hy)
  exact {
    untyped := untyped_step h.untyped hw he
    bounded := bounded_step h.bounded hp
    answered := fun hd hn => h.answered_step hg hw he (hopen hd) (hnum hn)
    alive := fun hserver hd hn ho =>
      h.alive_step hg hw hp hserver (hconn hserver) (hopen hd) hd (hnum hn) ho }

theorem execution_polled {n : σ} (h : (machine sync p).Execution (initial n) s) :
    KeepsPolling p s := by
  have main : (Wired s ∧ Ordered s ∧ Grounded p s) ∧
      (p.kind = .server → .opening .connect ∉ s.awaits) ∧ KeepsPolling p s := by
    refine h.invariant (I := fun s => (Wired s ∧ Ordered s ∧ Grounded p s) ∧
      (p.kind = .server → .opening .connect ∉ s.awaits) ∧ KeepsPolling p s) ?_ ?_
    · refine ⟨⟨initial_wired n, initial_ordered n, initial_grounded p n⟩, ?_, ?_⟩
      · simp [initial, Backed.initial, AsyncApi.initial, State.awaits]
      · constructor <;> simp [initial, Backed.initial, AsyncApi.initial, State.awaits,
          Untyped, State.polls, State.broken, State.opened]
    · rintro u e ⟨⟨hw, ho, hg⟩, hconn, hpol⟩ he
      have hc : Change sync p u e (next sync p u e) := hw.changes he
      exact ⟨⟨step_wired hw he, ho.step hw hc, hg.step ho hw hc⟩,
        fun hs => hc.unconnected hw hs (hconn hs), hpol.step hg hw hconn he⟩
  exact main.2.2

/-- Each opening starts one chain of polls: chains do not fork, though two may join, and
until the object is disposed of one of them goes on or has ended in a `TypeError`. -/
theorem polling_goes_on {n : σ} (h : (machine sync p).Execution (initial n) s) :
    s.polls + s.broken ≤ s.opened ∧
      (p.kind = .server → s.startedToDispose = false → Numbered s → 0 < s.opened →
        0 < s.polls + s.broken) :=
  ⟨(execution_polled h).bounded, (execution_polled h).alive⟩

/-- After an opening and two polls one timer is set. -/
def polledTwiceRun : List (Event TableEvent) := openRun ++ answer ++ [.pollTimer] ++ answer

theorem polling_goes_on_polledTwice :
    let s := serverMachine.runTrace (initial .empty) polledTwiceRun
    (s.opened, s.pollEventsTimer) = (1, true) ∧ s.polls + s.broken = 1 := by
  have h : serverMachine.Execution (initial .empty)
      (serverMachine.runTrace (initial .empty) polledTwiceRun) :=
    Machine.execution_of_trace _ _ polledTwiceRun (by decide)
  obtain ⟨hle, hpos⟩ := polling_goes_on h
  have hopen : (serverMachine.runTrace (initial .empty) polledTwiceRun).opened = 1 := by decide
  have halive := hpos rfl (by decide) (by unfold Numbered; decide) (by decide)
  exact ⟨by decide, by omega⟩

/-! ## Over the native object -/

variable {lib : Libsrt σ ω}

theorem poll_replies {n : σ} (h : (machine (nodeSRT lib) p).Execution (initial n) s)
    (hg : Grounded p s) {v : ReturnValue} (hr : Replied s .epollUWait v) :
    ∃ events, v = .epollResults events := by
  have hcalled := execution_called h
  obtain ⟨q, hq, o, hwait, hx, rfl⟩ := hr
  have hj := hg.justified q hq
  rw [hwait] at hj
  obtain ⟨epid, -, ⟨w, hgave, hepid⟩, -, hpost⟩ := hj
  obtain ⟨k, rfl⟩ : ∃ k, w = .number k := by
    obtain ⟨m, hm⟩ := hcalled _ hgave.1
    obtain ⟨k, hk⟩ : ∃ k, resultOf (lib.epollCreate m).2 = .number k :=
      Libsrt.runOrThrow_number m .epollCreate (· < 0)
    exact ⟨k, (congrArg resultOf hm).trans hk⟩
  obtain ⟨m, hm⟩ := hcalled _ hx
  rw [hpost, hepid] at hm
  exact ⟨_, congrArg resultOf hm⟩

/-- Until it is disposed of a server's polls do not break. -/
theorem step_unbroken {n : σ} (h : (machine (nodeSRT lib) p).Execution (initial n) s)
    (he : Enabled s e) (hd : s.startedToDispose = false) (hb : s.broken = 0) :
    (next (nodeSRT lib) p s e).broken = 0 := by
  obtain ⟨hw, -, hg⟩ := execution_grounded h
  have hp : Polling s (next (nodeSRT lib) p s e) := step_polling hw (execution_polled h).untyped he
  cases hp with
  | keeps _ _ hb' | connects _ _ _ hb' | opens _ _ hb' | again _ _ _ hb' | fails _ _ _ hb'
  | stops _ _ _ hb' => exact hb'.trans hb
  | breaks hv hl =>
    have hr := hg.replied hv (by simp [Await.method]) (Or.inr (hw.async_notCalled hd).1)
    obtain ⟨events, he⟩ := poll_replies h hg hr
    exact absurd he (hl events)

theorem execution_unbroken {n : σ} (h : (machine (nodeSRT lib) p).Execution (initial n) s)
    (hd : s.startedToDispose = false) : s.broken = 0 := by
  have main : (machine (nodeSRT lib) p).Execution (initial n) s ∧
      (s.startedToDispose = false → s.broken = 0) := by
    refine h.invariant (I := fun s => (machine (nodeSRT lib) p).Execution (initial n) s ∧
      (s.startedToDispose = false → s.broken = 0)) ⟨.refl _, fun _ => rfl⟩ ?_
    rintro u e ⟨hu, hb⟩ he
    refine ⟨hu.tail he, fun hd => ?_⟩
    have hopen := (execution_wired hu).open_before he hd
    exact step_unbroken hu he hopen (hb hopen)
  exact main.2 hd

/-- A server polls until it is disposed of, whatever the library gives it: with its first
opening there is always a poll in the worker or a timer of the next one. -/
theorem server_polls (hz : ∀ n, (lib.run n .epollCreate).2.value ≠ 0) {n : σ}
    (h : (machine (nodeSRT lib) p).Execution (initial n) s) (hp : p.kind = .server)
    (hd : s.startedToDispose = false) (ho : 0 < s.opened) : 0 < s.polls ∧ s.polls ≤ s.opened := by
  have hb := execution_unbroken h hd
  have hnum : Numbered s := by
    intro y hy hpost
    obtain ⟨m, hm⟩ := execution_called h y hy
    rw [hm, hpost]
    show isEpid (lib.epollCreate m).2 = true
    simp only [Libsrt.epollCreate, Libsrt.runOrThrow]
    split
    · rfl
    · simpa [isEpid] using hz m
  have hpolled := execution_polled h
  have hle := hpolled.bounded
  have hpos := hpolled.alive hp hd hnum ho
  exact ⟨by omega, by omega⟩

theorem server_polls_polledTwice :
    (serverMachine.runTrace (initial .empty) polledTwiceRun).polls = 1 := by
  have h : serverMachine.Execution (initial .empty)
      (serverMachine.runTrace (initial .empty) polledTwiceRun) :=
    Machine.execution_of_trace _ _ polledTwiceRun (by decide)
  have hopen : (serverMachine.runTrace (initial .empty) polledTwiceRun).opened = 1 := by decide
  obtain ⟨hpos, hle⟩ := server_polls (fun _ => one_ne_zero) h rfl (by decide) (by omega)
  omega

end SocketAsync
