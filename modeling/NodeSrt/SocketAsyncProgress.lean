import Mathlib.Tactic.Abel
import NodeSrt.Fairness
import NodeSrt.SocketAsyncInstance
import NodeSrt.SocketAsyncUnderway

/-! # The end of a disposal

`dispose` of an object awaits the native close, then the disposal of the instance, and emits
`disposed`. Meanwhile polls are answered, connections accepted and functions resumed, but what
was posted behind the close is served behind it, and once the instance disposes of itself
nothing is posted any more. However many events a poll reports, the functions it starts end. -/
namespace SocketAsync

open AsyncValues
open TransitionSystem
open AsyncApi
open NativeSrt
open ServerConnection (SRTServerConnection)

variable {σ ω : Type*} {sync : SyncSRT σ ω} {p : Config} {e : Event ω} {s t u : State σ ω}

/-! ## What is left of the functions that run -/

/-- A function that resumes leaves smaller tokens behind. -/
def Await.rank : Await → Except Failure ReturnValue → ℕ
  | .opening .bind, _ => 5
  | .opening .listen, _ => 4
  | .opening .epollCreate, _ => 3
  | .opening .epollAddUsock, _ => 1
  | .epollUWait, .ok (.epollResults _) => 4
  | .handling (.getSockState _), _ => 3
  | .handling .accept, _ => 2
  | .handling (.epollAddUsock _), _ | .handling (.close _), _ | .create, _ => 1
  | _, _ => 0

def Frame.rank : Frame → ℕ
  | .opened => 2
  | _ => 0

/-- The timer of the poll is a token too. -/
def tokensOf (microtasks : List (Await × Except Failure ReturnValue)) (stack : List Frame)
    (timer : Bool) : Multiset ℕ :=
  Multiset.ofList (microtasks.map fun y => y.1.rank y.2) +
    Multiset.ofList (stack.map Frame.rank) + if timer then {1} else 0

def State.tokens (s : State σ ω) : Multiset ℕ := tokensOf s.microtasks s.stack s.pollEventsTimer

section

variable (microtasks : List (Await × Except Failure ReturnValue)) (stack : List Frame)
  (timer : Bool)

theorem tokensOf_concat (y : Await × Except Failure ReturnValue) :
    tokensOf (microtasks ++ [y]) stack timer =
      tokensOf microtasks stack timer + {y.1.rank y.2} := by
  simp only [tokensOf, List.map_append, List.map_cons, List.map_nil, ← Multiset.coe_add,
    Multiset.coe_singleton]
  abel

theorem tokensOf_microtask (y : Await × Except Failure ReturnValue) :
    tokensOf (y :: microtasks) stack timer =
      tokensOf microtasks stack timer + {y.1.rank y.2} := by
  simp only [tokensOf, List.map_cons, ← Multiset.cons_coe, ← Multiset.singleton_add]
  abel

theorem tokensOf_frame (f : Frame) :
    tokensOf microtasks (f :: stack) timer = tokensOf microtasks stack timer + {f.rank} := by
  simp only [tokensOf, List.map_cons, ← Multiset.cons_coe, ← Multiset.singleton_add]
  abel

theorem tokensOf_timer :
    tokensOf microtasks stack true = tokensOf microtasks stack false + {1} := by
  simp [tokensOf]

theorem tokensOf_cleared :
    tokensOf microtasks stack false ≤ tokensOf microtasks stack timer := by
  cases timer <;> simp [tokensOf]

theorem tokensOf_armed :
    tokensOf microtasks stack true ≤ tokensOf microtasks stack timer + {1} := by
  cases timer <;> simp [tokensOf]

end

/-- A part of a function adds tokens below `n` and posts behind what is posted; it posts
nothing once the instance disposes of itself. -/
structure Spawns (n : ℕ) (s t : State σ ω) : Prop where
  fields : (t.startedToDispose, t.disposal, t.asyncSrt.async.startedToDispose,
      t.asyncSrt.async.toMain) =
    (s.startedToDispose, s.disposal, s.asyncSrt.async.startedToDispose, s.asyncSrt.async.toMain)
  quiet : s.asyncSrt.async.startedToDispose = true → t.asyncSrt.async = s.asyncSrt.async
  queue : ∃ l, t.queue = s.queue ++ l ∧ .disposeClose ∉ l
  tokens : ∃ l, t.tokens ≤ s.tokens + l ∧ ∀ k ∈ l, k < n

namespace Spawns

variable {n m : ℕ}

theorem of_eq (he : (t.startedToDispose, t.disposal, t.asyncSrt, t.microtasks, t.stack,
      t.pollEventsTimer) =
    (s.startedToDispose, s.disposal, s.asyncSrt, s.microtasks, s.stack, s.pollEventsTimer)) :
    Spawns n s t := by
  simp only [Prod.mk.injEq] at he
  obtain ⟨hstart, hdisp, hasync, hmicro, hstack, htimer⟩ := he
  refine ⟨by rw [hstart, hdisp, hasync], fun _ => by rw [hasync], ⟨[], ?_, by simp⟩,
    ⟨0, ?_, by simp⟩⟩
  · simp [State.queue, hasync]
  · simp [State.tokens, hmicro, hstack, htimer]

theorem trans (h : Spawns n s u) (k : Spawns n u t) : Spawns n s t := by
  obtain ⟨hf, hq, ⟨l, hl, hln⟩, ⟨a, ha, han⟩⟩ := h
  obtain ⟨kf, kq, ⟨l', kl, kln⟩, ⟨b, kb, kbn⟩⟩ := k
  have hstart : u.asyncSrt.async.startedToDispose = s.asyncSrt.async.startedToDispose := by
    simp only [Prod.mk.injEq] at hf
    exact hf.2.2.1
  refine ⟨kf.trans hf, fun hd => (kq (hstart.trans hd)).trans (hq hd), ⟨l ++ l', ?_, ?_⟩,
    ⟨a + b, ?_, ?_⟩⟩
  · rw [kl, hl, List.append_assoc]
  · simp [hln, kln]
  · rw [← add_assoc]
    exact kb.trans (add_le_add_left ha b)
  · intro k hk
    rcases Multiset.mem_add.mp hk with hk | hk
    · exact han k hk
    · exact kbn k hk

theorem mono (h : Spawns n s t) (hn : n ≤ m) : Spawns m s t := by
  obtain ⟨hf, hq, hl, ⟨a, ha, han⟩⟩ := h
  exact ⟨hf, hq, hl, ⟨a, ha, fun k hk => (han k hk).trans_le hn⟩⟩

theorem wake (s : State σ ω) {a : Await} {r : Except Failure ReturnValue} (hr : a.rank r < n) :
    Spawns n s (s.wake a r) := by
  exact ⟨rfl, fun _ => rfl, ⟨[], (List.append_nil _).symm, by simp⟩,
    ⟨_, (tokensOf_concat _ _ _ (a, r)).le, fun k hk => Multiset.mem_singleton.mp hk ▸ hr⟩⟩

theorem emit (s : State σ ω) (y : Emission) {f : Frame} (hf : f.rank < n) :
    Spawns n s (s.emit y f) := by
  exact ⟨rfl, fun _ => rfl, ⟨[], (List.append_nil _).symm, by simp⟩,
    ⟨_, (tokensOf_frame _ _ _ f).le, fun k hk => Multiset.mem_singleton.mp hk ▸ hf⟩⟩

theorem post (h : Wired s) {c : ApiCall} (hc : Simple c) {a : Await} (ha : a ≠ .disposeClose)
    (hr : ∀ r, Refused s r → a.rank r < n) : Spawns n s (s.post c a) := by
  rcases hc.accepts_or_refused s.asyncSrt.async with hacc | href
  · rw [post_of_accepts h.invariant hc hacc]
    refine ⟨rfl, fun hd => ?_, ⟨[a], ?_, by simpa using ha.symm⟩, ⟨0, (add_zero _).ge, by simp⟩⟩
    · have hopen := hacc.1.2.2.1
      simp [hd] at hopen
    · simp [State.queue, State.setAsync, AsyncSRT.accept, AsyncSRT.prepare]
  · obtain ⟨r, e, hrefused⟩ := post_refused hc href a
    rw [e]
    exact wake s (hr r hrefused)

theorem pollEvents (h : Wired s) : Spawns 1 s s.pollEvents := by
  unfold State.pollEvents
  split
  · refine ⟨rfl, fun _ => rfl, ⟨[], (List.append_nil _).symm, by simp⟩, ⟨0, ?_, by simp⟩⟩
    rw [add_zero]
    exact tokensOf_cleared _ _ _
  · refine post h (simple_epollUWait s.epid _) (by simp) fun r hr => ?_
    rcases hr with ⟨f, rfl⟩ | ⟨rfl, -⟩ <;> simp [Await.rank]

theorem unlessFailed {v : ReturnValue} {e : SocketError} (h : Spawns n s t) :
    Spawns n s (s.unlessFailed v e t) := by
  unfold State.unlessFailed
  split
  · exact of_eq rfl
  · exact h

theorem resumeOpen (h : Wired s) (v : ReturnValue) (step : OpenStep)
    (hn : (Await.opening step).rank (.ok v) ≤ n) : Spawns n s (s.resumeOpen v step) := by
  apply mono ?_ hn
  cases step with
  | bind =>
    exact unlessFailed (post h (simple_listen s.socket _) (by simp) fun r _ => by simp [Await.rank])
  | listen =>
    exact unlessFailed (post h simple_epollCreate (by simp) fun r _ => by simp [Await.rank])
  | epollCreate =>
    have hset : Spawns 3 s { s with epid := .ofReply v } := of_eq rfl
    exact unlessFailed (hset.trans (emit _ _ (by simp [Frame.rank])))
  | epollAddUsock => exact (pollEvents h).trans (of_eq rfl)
  | connect => exact unlessFailed (of_eq rfl)

/-- Every connection is closed, so that closing it ends at once. -/
theorem closeConnection (h : Wired s) (c : ℕ) (fd : ℤ) (hn : 1 < n) :
    Spawns n s (s.closeConnection c (.handler fd)) := by
  have hcall : Spawns n s { s with closeCalls := s.closeCalls ++ [c] } := of_eq rfl
  simp only [State.closeConnection]
  split
  · exact hcall
  · rename_i conn hconn
    rw [if_pos (h.closed conn (List.mem_of_getElem? hconn))]
    exact hcall.trans (wake _ hn)

theorem handleEvents (h : Wired s) (events : List SRTEpollResult) (hn : 3 < n) :
    Spawns n s (events.foldl State.handleEvent s) := by
  induction events generalizing s with
  | nil => exact of_eq rfl
  | cons event events ih =>
    have hpost : Moves s (s.handleEvent event) := h.moves_post (simple_getSockState _) rfl rfl
    have hfirst : Spawns n s (s.handleEvent event) :=
      post h (simple_getSockState _) (by simp) fun r _ => hn
    exact hfirst.trans (ih hpost.wired)

theorem onEvents (h : Wired s) (v : ReturnValue) (hn : Await.epollUWait.rank (.ok v) ≤ n) :
    Spawns n s (s.onEvents v) := by
  unfold State.onEvents
  split
  · rename_i events
    have hn : 3 < n := hn
    apply (handleEvents h events hn).trans
    refine ⟨rfl, fun _ => rfl, ⟨[], (List.append_nil _).symm, by simp⟩, ⟨{1}, ?_, ?_⟩⟩
    · exact tokensOf_armed _ _ _
    · exact fun k hk => Multiset.mem_singleton.mp hk ▸ (by omega)
  · exact of_eq rfl

theorem onStatus (h : Wired s) (event : SRTEpollResult) (status : ReturnValue) :
    Spawns 3 s (s.onStatus event status) := by
  unfold State.onStatus
  split
  · split
    · exact post h (simple_accept s.socket _) (by simp) fun r _ => by simp [Await.rank]
    · exact of_eq rfl
  split
  · split
    · exact closeConnection h _ _ (by omega)
    · exact of_eq rfl
  · split
    · exact emit s _ (by simp [Frame.rank])
    · exact of_eq rfl

theorem resumeHandle (h : Wired s) (v : ReturnValue) (step : HandleStep)
    (hn : (Await.handling step).rank (.ok v) ≤ n) : Spawns n s (s.resumeHandle v step) := by
  apply mono ?_ hn
  cases step with
  | getSockState event => exact onStatus h event v
  | accept =>
    exact post h (simple_epollAddUsock s.epid (.ofReply v) _) (by simp) fun r _ => by
      simp [Await.rank]
  | epollAddUsock fd =>
    have hemit := emit (n := 1) s (.connection s.connections.length) (f := .connection)
      (by simp [Frame.rank])
    exact hemit.trans (of_eq rfl)
  | close fd => exact emit s _ Nat.one_pos

/-- A function that resumes leaves smaller tokens than the one it was. -/
theorem resume (h : Wired s) {a : Await} (ha : a.owning = false) (r : Except Failure ReturnValue) :
    Spawns (a.rank r) s (s.resume a r) := by
  cases a with
  | create | disposeClose | disposeAsync | closing c caller => cases ha
  | opening step =>
    cases r with
    | ok v => exact resumeOpen h v step le_rfl
    | error e => exact of_eq rfl
  | epollUWait =>
    cases r with
    | ok v => exact onEvents h v le_rfl
    | error e => exact of_eq rfl
  | handling step =>
    cases r with
    | ok v => exact resumeHandle h v step le_rfl
    | error e => exact of_eq rfl

theorem afterListeners (h : Wired s) {f : Frame} (hc : f.isClosing = false) (hd : f ≠ .disposed) :
    Spawns f.rank s (s.afterListeners f) := by
  cases f with
  | opened =>
    exact post h (simple_epollAddUsock s.epid s.socket _) (by simp) fun r _ => by
      simp [Await.rank, Frame.rank]
  | disposed => exact absurd rfl hd
  | created | connection | disconnection | data => exact of_eq rfl
  | closing c caller | closed c caller v => cases hc

theorem listenerThrew (s : State σ ω) {f : Frame} (hc : f.isClosing = false)
    (hd : f ≠ .disposed) : Spawns f.rank s (s.listenerThrew f) := by
  cases f with
  | disposed => exact absurd rfl hd
  | created | opened | connection | disconnection | data => exact of_eq rfl
  | closing c caller | closed c caller v => cases hc

end Spawns

/-! ## What is left of the disposal -/

def Ended (s : State σ ω) : Prop := s.disposal = .finished ∨ s.disposal = .failed

def DisposeStage.left : DisposeStage → ℕ
  | .closing => 3
  | .disposing => 2
  | .emitting => 1
  | .notCalled | .finished | .failed => 0

def State.repliesAhead (s : State σ ω) : ℕ :=
  if .disposeClose ∈ s.queue then s.queue.idxOf .disposeClose + 1 else 0

/-- What the worker and the instance still have to do for the disposal. -/
def State.pending (s : State σ ω) : ℕ :=
  match s.disposal with
  | .closing => s.repliesAhead + (s.repliesAhead - s.asyncSrt.async.toMain.length)
  | .disposing => s.asyncSrt.async.remaining
  | _ => 0

/-- The stage of the disposal, what it waits for, and the functions that run meanwhile. -/
def State.left (s : State σ ω) : ℕ × ℕ × Multiset ℕ :=
  (s.disposal.left, s.pending, if s.disposal.left = 0 then 0 else s.tokens)

def Closer : ℕ × ℕ × Multiset ℕ → ℕ × ℕ × Multiset ℕ → Prop :=
  Prod.Lex (· < ·) (Prod.Lex (· < ·) Multiset.IsDershowitzMannaLT)

theorem closer_wellFounded : WellFounded Closer :=
  wellFounded_lt.prod_lex (wellFounded_lt.prod_lex Multiset.wellFounded_isDershowitzMannaLT)

/-- The steps that bring a disposal closer to its end. The worker makes one as long as it
executes what the disposal waits for. -/
def Advances (s : State σ ω) (e : Event ω) : Prop :=
  ¬ Ended s ∧ match e with
  | .listenerReturn _ | .resume | .resumeDispose | .deliver | .pollTimer | .exited _ => True
  | .exec => s.disposal = .disposing ∨ s.asyncSrt.async.toMain.length < s.repliesAhead
  | .pollDispose => s.asyncSrt.async.lockLevel ≤ 0
  | .create | .opening | .dispose | .closeConnection _ | .env _ => False

structure Leaving (s : State σ ω) : Prop where
  wired : Wired s
  ordered : Ordered s
  underway : Underway s
  instanceRun : (tracingMachine Await).Execution AsyncApi.initial s.asyncSrt.async
  started : s.startedToDispose = true

theorem Wired.length_queue (h : Wired s) :
    s.queue.length = s.asyncSrt.async.toWorker.length + s.asyncSrt.async.toMain.length := by
  have hmatch := queue_matches_port h.invariant.correlated
  cases hw : s.asyncSrt.async.worker with
  | true => simpa [State.queue, AsyncSRT.unanswered, hw] using hmatch
  | false =>
    obtain ⟨_, hworker, hmain⟩ := h.dropped hw
    simpa [State.queue, AsyncSRT.unanswered, hw, hworker, hmain] using hmatch

namespace Leaving

theorem step (h : Leaving s) (he : Enabled s e) : Leaving (next sync p s e) := by
  obtain ⟨hw, hc⟩ : Wired (next sync p s e) ∧ Case sync s e (next sync p s e) :=
    step_cases h.wired he
  exact ⟨hw, h.ordered.step h.wired (h.wired.changes he), h.underway.step h.wired h.ordered hc,
    h.instanceRun.trans (Drives.step h.wired he), hc.starts h.wired h.started⟩

theorem winding (h : Leaving s) (hd : s.disposal = .disposing) : Winding s.asyncSrt.async :=
  ⟨(reachable_watched h.instanceRun.of_restrict).1, (reachable_watched h.instanceRun.of_restrict).2,
    h.underway.begun hd⟩

/-- No call of the object asks for a timeout. -/
theorem untimed (h : Leaving s) (k : ℕ) : s.asyncSrt.async.timeout k = none := by
  obtain ⟨hqueued, hwatched⟩ := reachable_watched h.instanceRun.of_restrict
  cases hw : s.asyncSrt.async.worker with
  | false => exact hwatched.disarmed hw k
  | true =>
    cases ht : s.asyncSrt.async.timeout k with
    | none => rfl
    | some t =>
      obtain ⟨_, cb, hcb, _, hu⟩ := hqueued.armed hw k t ht
      rw [h.wired.invariant.correlated.waiting hw] at hcb
      obtain ⟨q, hq, rfl⟩ := List.mem_map.mp (List.mem_of_mem_drop hcb)
      simp [(h.wired.plain q hq).2] at hu

theorem left_pos (h : Leaving s) (hn : ¬ Ended s) : 0 < s.disposal.left := by
  cases hd : s.disposal with
  | notCalled =>
    have hno := h.underway.notCalled.mpr hd
    simp [h.started] at hno
  | closing | disposing | emitting => simp [DisposeStage.left]
  | finished => exact absurd (Or.inl hd) hn
  | failed => exact absurd (Or.inr hd) hn

end Leaving

/-! ### What brings it down -/

theorem left_congr (he : (t.disposal, t.asyncSrt.async, t.microtasks, t.stack, t.pollEventsTimer) =
    (s.disposal, s.asyncSrt.async, s.microtasks, s.stack, s.pollEventsTimer)) :
    t.left = s.left := by
  simp only [Prod.mk.injEq] at he
  obtain ⟨hdisp, hasync, hmicro, hstack, htimer⟩ := he
  simp [State.left, State.pending, State.repliesAhead, State.queue, State.tokens, hdisp, hasync,
    hmicro, hstack, htimer]

theorem closer_of_stage (h : t.disposal.left < s.disposal.left) : Closer t.left s.left :=
  Prod.Lex.left _ _ h

theorem closer_of_pending (hd : t.disposal = s.disposal) (h : t.pending < s.pending) :
    Closer t.left s.left := by
  unfold Closer State.left
  rw [hd]
  exact .right _ (.left _ _ h)

theorem closer_of_tokens (hd : t.disposal = s.disposal) (hp : t.pending = s.pending)
    (hl : 0 < s.disposal.left) (h : t.tokens.IsDershowitzMannaLT s.tokens) :
    Closer t.left s.left := by
  unfold Closer State.left
  rw [hd, hp, if_neg hl.ne', if_neg hl.ne']
  exact .right _ (.right _ h)

theorem Spawns.pending {n : ℕ} (h : Spawns n s t) (hu : Underway s) : t.pending = s.pending := by
  obtain ⟨hf, hquiet, ⟨l, hl, hno⟩, -⟩ := h
  simp only [Prod.mk.injEq] at hf
  obtain ⟨-, hdisp, -, hmain⟩ := hf
  have hahead : t.repliesAhead = s.repliesAhead := by
    by_cases hmem : .disposeClose ∈ s.queue
    · simp [State.repliesAhead, hl, hmem, List.idxOf_append_of_mem hmem]
    · simp [State.repliesAhead, hl, hmem, hno]
  unfold State.pending
  rw [hdisp, hahead, hmain]
  split
  · rfl
  · rename_i hd
    rw [hquiet (hu.begun hd)]
  · rfl

theorem Spawns.closer {n : ℕ} (h : Spawns n u t) (hs : Leaving s) (hn : ¬ Ended s)
    (hu : (u.disposal, u.asyncSrt.async) = (s.disposal, s.asyncSrt.async)) (huw : Underway u)
    (htokens : s.tokens = u.tokens + {n}) : Closer t.left s.left := by
  simp only [Prod.mk.injEq] at hu
  obtain ⟨hdisp, hasync⟩ := hu
  have hsame : u.pending = s.pending := by
    simp [State.pending, State.repliesAhead, State.queue, hdisp, hasync]
  have hpending := (h.pending huw).trans hsame
  have hf := h.fields
  obtain ⟨l, hl, hln⟩ := h.tokens
  simp only [Prod.mk.injEq] at hf
  exact closer_of_tokens (hf.2.1.trans hdisp) hpending (hs.left_pos hn)
    (htokens ▸ spent_lt hl hln)

namespace Leaving

/-! ### Steps -/

theorem step_create (h : Leaving s) : s.create.left = s.left := by
  unfold State.create
  dsimp only
  split
  · exact left_congr rfl
  · rw [if_pos h.started]
    exact left_congr rfl

theorem step_openSocket (h : Leaving s) : (s.openSocket p).left = s.left := by
  unfold State.openSocket
  split
  · exact left_congr rfl
  · rw [if_pos h.started]
    exact left_congr rfl

theorem step_dispose (h : Leaving s) :
    (s.dispose p).left = s.left ∨ Closer (s.dispose p).left s.left := by
  have hcleared : s.clearTimers.tokens ≤ s.tokens := tokensOf_cleared _ _ _
  have hclear : s.clearTimers.left = s.left ∨ Closer s.clearTimers.left s.left := by
    by_cases hl : s.disposal.left = 0
    · exact Or.inl (by simp [State.left, hl, State.clearTimers, State.pending, State.repliesAhead,
        State.queue])
    · rcases lost_lt hcleared with heq | hlt
      · exact Or.inl (by simp only [State.left, heq]; rfl)
      · exact Or.inr (closer_of_tokens rfl rfl (Nat.pos_of_ne_zero hl) hlt)
  have hstart : s.clearTimers.startedToDispose = true := h.started
  unfold State.dispose
  dsimp only
  split
  · exact hclear
  · rw [if_pos h.started]
    exact Or.inl (left_congr rfl)

theorem step_closeConnection (h : Leaving s) (c : ℕ) :
    (s.closeConnection c .user).left = s.left := by
  simp only [State.closeConnection]
  split
  · exact left_congr rfl
  · rename_i conn hconn
    rw [if_pos (h.wired.closed conn (List.mem_of_getElem? hconn))]
    exact left_congr rfl

theorem step_listenerReturn (h : Leaving s) (hn : ¬ Ended s) {f : Frame} {rest : List Frame}
    (hq : s.stack = f :: rest) (threw : Bool) :
    Closer (next sync p s (.listenerReturn threw)).left s.left := by
  have hc : f.isClosing = false := h.wired.frames f (hq ▸ List.mem_cons_self)
  have hrest : ∀ f ∈ rest, f.isClosing = false :=
    fun f hf => h.wired.frames f (hq ▸ List.mem_cons_of_mem _ hf)
  simp only [next, hq]
  by_cases hd : f = .disposed
  · subst hd
    have hemit := h.underway.emitting_of_mem (hq ▸ List.mem_cons_self)
    apply closer_of_stage
    rw [hemit]
    cases threw <;> exact Nat.zero_lt_one
  · have hpop : Wired { s with stack := rest } := h.wired.frame rfl (fun _ hx => hx) hrest id
    have hunder : Underway { s with stack := rest } := by
      refine h.underway.frame rfl rfl rfl ?_
      rw [hq, List.count_cons_of_ne hd]
    have htokens : s.tokens = { s with stack := rest }.tokens + {f.rank} := by
      rw [State.tokens, hq, tokensOf_frame]
      rfl
    split
    · exact (Spawns.listenerThrew _ hc hd).closer h hn rfl hunder htokens
    · exact (Spawns.afterListeners hpop hc hd).closer h hn rfl hunder htokens

theorem step_resume (h : Leaving s) (hn : ¬ Ended s) {a : Await} {r : Except Failure ReturnValue}
    {rest : List (Await × Except Failure ReturnValue)} (hq : s.microtasks = (a, r) :: rest) :
    Closer ({ s with microtasks := rest }.resume a r).left s.left := by
  have hpop : Wired { s with microtasks := rest } := h.wired.pop hq
  have hawaits := awaits_pop (t := { s with microtasks := rest }) hq rfl
  have hmem : a ∈ s.awaits := hawaits ▸ List.mem_cons_self
  have htokens : s.tokens = { s with microtasks := rest }.tokens + {a.rank r} := by
    rw [State.tokens, hq, tokensOf_microtask]
    rfl
  have hspawns : ∀ {t}, Spawns (a.rank r) { s with microtasks := rest } t →
      a ≠ .disposeClose → a ≠ .disposeAsync → Closer t.left s.left := by
    intro t ht hclose hasync
    refine ht.closer h hn rfl (h.underway.frame rfl ?_ ?_ rfl) htokens
    · rw [hawaits, List.count_cons_of_ne hclose]
    · rw [hawaits, List.count_cons_of_ne hasync]
  cases a with
  | create =>
    apply hspawns ?_ (by simp) (by simp)
    cases r with
    | ok v =>
      have hset : Spawns 1 { s with microtasks := rest }
          { s with microtasks := rest, socket := .ofReply v } := .of_eq rfl
      exact hset.trans (.emit _ _ Nat.one_pos)
    | error f => exact .of_eq rfl
  | disposeClose =>
    have hstage := h.underway.closing_of_mem hmem
    apply closer_of_stage
    cases r with
    | ok v =>
      have hnext : ({ s with microtasks := rest }.resume .disposeClose (.ok v)).disposal =
          .disposing := by
        simp only [State.resume, State.disposeAsync, State.awaitDisposed]
        split <;> rfl
      rw [hnext, hstage]
      decide
    | error f =>
      rw [hstage]
      exact Nat.zero_lt_succ _
  | disposeAsync =>
    apply closer_of_stage
    rw [(h.underway.exited_of_mem hmem).1]
    cases r with
    | ok v => exact Nat.one_lt_two
    | error f => exact Nat.zero_lt_succ _
  | closing c caller => exact absurd (h.wired.waits _ hmem) (by simp [Await.isClosing])
  | opening step | epollUWait | handling step =>
    exact hspawns (.resume hpop rfl r) (by simp) (by simp)

theorem step_pollTimer (h : Leaving s) (hn : ¬ Ended s) (ht : s.pollEventsTimer = true) :
    Closer (next sync p s .pollTimer).left s.left := by
  have hfire : Wired { s with pollEventsTimer := false } :=
    h.wired.frame rfl (fun _ hx => hx) h.wired.frames id
  have htokens : s.tokens = { s with pollEventsTimer := false }.tokens + {1} := by
    rw [State.tokens, ht, tokensOf_timer]
    rfl
  exact (Spawns.pollEvents hfire).closer h hn rfl (h.underway.frame rfl rfl rfl rfl) htokens

/-! ### Steps of the instance -/

/-- A step of the instance that is progress for it is progress for the disposal. -/
theorem closer_of_instance (h : Leaving s) (hd : s.disposal = .disposing)
    (ht : t.disposal = s.disposal) {d : AsyncApi.Event Await}
    (hasync : t.asyncSrt.async = AsyncApi.next s.asyncSrt.async d)
    (he : AsyncApi.Enabled s.asyncSrt.async d) (hp : AsyncApi.Progresses s.asyncSrt.async d) :
    Closer t.left s.left := by
  have hlt := ((h.winding hd).remaining_next he).2 hp
  apply closer_of_pending ht
  simpa [State.pending, ht, hd, hasync] using hlt

theorem step_resumeDispose (h : Leaving s) (hd : s.asyncSrt.async.disposing = .resuming) :
    Closer (next sync p s .resumeDispose).left s.left := by
  have hstage := h.underway.disposing_of_phase (Or.inr (Or.inl hd))
  refine h.closer_of_instance (d := .resumeDispose) hstage ?_ ?_ ⟨hd, h.wired.running⟩ trivial
  · simp only [next, State.awaitDisposed]
    split <;> rfl
  · simp only [next, State.awaitDisposed]
    split <;> rfl

theorem step_exited (h : Leaving s) (hd : s.asyncSrt.async.disposing = .terminating) (code : ℤ) :
    Closer (next sync p s (.exited code)).left s.left := by
  have hstage := h.underway.disposing_of_phase (Or.inr (Or.inr hd))
  refine h.closer_of_instance (d := .exited code) hstage ?_ ?_ ⟨hd, h.wired.running⟩ trivial
  · simp only [next, State.awaitDisposed]
    split <;> rfl
  · simp only [next, State.awaitDisposed]
    split <;> rfl

/-- A poll ends the wait if the counter is down; else nothing changes. -/
theorem step_pollDispose (h : Leaving s) (hd : s.asyncSrt.async.disposing = .waiting) :
    ((next sync p s .pollDispose).left = s.left ∨
      Closer (next sync p s .pollDispose).left s.left) ∧
    (s.asyncSrt.async.lockLevel ≤ 0 → Closer (next sync p s .pollDispose).left s.left) := by
  have hstage := h.underway.disposing_of_phase (Or.inl hd)
  have hlt : s.asyncSrt.async.lockLevel ≤ 0 →
      Closer (next sync p s .pollDispose).left s.left := fun hl =>
    h.closer_of_instance (d := .pollDispose) hstage rfl rfl ⟨hd, h.wired.running⟩ hl
  refine ⟨?_, hlt⟩
  by_cases hl : s.asyncSrt.async.lockLevel ≤ 0
  · exact Or.inr (hlt hl)
  · refine Or.inl (left_congr ?_)
    simp [next, AsyncApi.next, hl, State.setAsync]

theorem step_exec (h : Leaving s) (he : Enabled s (.exec : Event ω)) :
    ((next sync p s .exec).left = s.left ∨ Closer (next sync p s .exec).left s.left) ∧
    (Advances s (.exec : Event ω) → Closer (next sync p s .exec).left s.left) := by
  obtain ⟨data, rest, hq⟩ := List.exists_cons_of_ne_nil he.1
  have hnext : (next sync p s .exec).asyncSrt.async =
      AsyncApi.next s.asyncSrt.async (.exec (sync.call s.asyncSrt.native data).2) := by
    rw [h.wired.next_exec hq]
    simp [AsyncApi.next, hq]
  have hdisp : (next sync p s .exec).disposal = s.disposal := by
    rw [h.wired.next_exec hq]
  by_cases hd : s.disposal = .disposing
  · have hlt := h.closer_of_instance hd hdisp hnext he trivial
    exact ⟨Or.inr hlt, fun _ => hlt⟩
  have hahead : (next sync p s .exec).repliesAhead = s.repliesAhead := by
    rw [h.wired.next_exec hq]
    rfl
  have htokens : (next sync p s .exec).tokens = s.tokens := by
    rw [h.wired.next_exec hq]
    rfl
  have hmain : (next sync p s .exec).asyncSrt.async.toMain.length =
      s.asyncSrt.async.toMain.length + 1 := by
    rw [hnext]
    simp [AsyncApi.next, hq, AsyncSRT.exec]
  by_cases hc : s.disposal = .closing ∧ s.asyncSrt.async.toMain.length < s.repliesAhead
  · have hlt : Closer (next sync p s .exec).left s.left := by
      apply closer_of_pending hdisp
      simp only [State.pending, hdisp, hc.1, hahead, hmain]
      omega
    exact ⟨Or.inr hlt, fun _ => hlt⟩
  · have hpending : (next sync p s .exec).pending = s.pending := by
      simp only [State.pending, hdisp, hahead, hmain]
      split
      · rename_i hclosing
        have hle : s.repliesAhead ≤ s.asyncSrt.async.toMain.length := by
          by_contra hn
          exact hc ⟨hclosing, by omega⟩
        omega
      · exact absurd ‹_› hd
      · rfl
    refine ⟨Or.inl (by simp only [State.left, hdisp, hpending, htokens]), ?_⟩
    rintro ⟨-, hadv⟩
    have hlt := hadv.resolve_left hd
    have hqueue : .disposeClose ∈ s.queue := by
      by_contra hno
      simp [State.repliesAhead, hno] at hlt
    exact absurd ⟨h.underway.closing_of_mem (mem_awaits.mpr (Or.inr hqueue)), hlt⟩ hc

theorem mem_queue (h : Leaving s) (hi : Idle s) (hd : s.disposal = .closing) :
    .disposeClose ∈ s.queue := by
  have hcount := h.underway.closing
  rw [if_pos hd] at hcount
  have hmem : .disposeClose ∈ s.awaits := List.count_pos_iff.mp (by omega)
  rcases mem_awaits.mp hmem with ⟨r, hr⟩ | hq
  · simp [hi.2.1] at hr
  · exact hq

/-- A reply comes in: that to the close, or one that was ahead of it. -/
theorem step_deliver (h : Leaving s) (hn : ¬ Ended s) (he : Enabled s (.deliver : Event ω)) :
    Closer s.deliver.left s.left := by
  obtain ⟨hi, hm⟩ := he
  have hord := (h.wired.moves_deliver ⟨hi, hm⟩).ordinary
  have hf := hord.fields
  simp only [Prod.mk.injEq] at hf
  obtain ⟨-, -, hdisp, -⟩ := hf
  have hnext : s.deliver.asyncSrt.async = AsyncApi.next s.asyncSrt.async .deliver := by
    obtain ⟨q, ks, v, e, -⟩ := h.wired.deliver_eq hm
    rw [e]
    rfl
  cases hd : s.disposal with
  | notCalled | finished | failed =>
    have hpos := h.left_pos hn
    simp [hd, DisposeStage.left] at hpos
  | emitting =>
    have hcount := h.underway.emitting
    simp [hi.1, hd] at hcount
  | disposing =>
    exact h.closer_of_instance hd hdisp hnext ⟨hm, h.wired.running⟩ trivial
  | closing =>
    have hqueue := h.mem_queue hi hd
    obtain ⟨a, v, -, hcons, hmicro, -⟩ := h.wired.delivers ⟨hi, hm⟩
    have hmain : s.deliver.asyncSrt.async.toMain.length + 1 =
        s.asyncSrt.async.toMain.length := by
      have hlen := h.wired.length_queue
      have hlen' := (h.wired.moves_deliver ⟨hi, hm⟩).wired.length_queue
      have hworker : s.deliver.asyncSrt.async.toWorker = s.asyncSrt.async.toWorker := by
        obtain ⟨data, rest, hdata⟩ := List.exists_cons_of_ne_nil hm
        have hframe := deliver_frame s.asyncSrt.async data
        simp only [Prod.mk.injEq] at hframe
        rw [hnext, AsyncApi.next, hdata]
        exact hframe.2.2.2.2.2.2.1
      rw [hcons, List.length_cons] at hlen
      rw [hworker] at hlen'
      omega
    have hahead : s.deliver.repliesAhead + 1 = s.repliesAhead := by
      by_cases ha : a = .disposeClose
      · subst ha
        have hnone : .disposeClose ∉ s.deliver.queue := by
          have hcount := h.underway.closing
          rw [if_pos hd, awaits_eq, hi.2.1, hcons] at hcount
          exact List.count_eq_zero.mp (by simpa using hcount)
        simp [State.repliesAhead, hcons, hnone]
      · have hmem : .disposeClose ∈ s.deliver.queue := by
          rw [hcons] at hqueue
          exact (List.mem_cons.mp hqueue).resolve_left (Ne.symm ha)
        simp [State.repliesAhead, hcons, hmem, List.idxOf_cons_ne _ ha]
    apply closer_of_pending hdisp
    simp only [State.pending, hdisp, hd]
    omega

theorem ended_next (h : Leaving s) (hn : Ended s) (he : Enabled s e) :
    Ended (next sync p s e) := by
  have hkept : ∀ {u : State σ ω}, u.disposal = s.disposal → Ended u := fun hd => by
    unfold Ended
    rw [hd]
    exact hn
  have hno : ∀ {stage}, s.disposal = stage → stage ≠ .finished → stage ≠ .failed → False :=
    fun hd hf hg => hn.elim (fun he => hf (hd ▸ he)) fun he => hg (hd ▸ he)
  have hstart : ∀ {u : State σ ω}, Moves s u → u.startedToDispose = true := fun hm => by
    have hf := hm.ordinary.fields
    simp only [Prod.mk.injEq] at hf
    exact hf.2.1.trans h.started
  have hc : Case sync s e (next sync p s e) := (step_cases h.wired he).2
  generalize next sync p s e = t at hc ⊢
  cases hc with
  | moves hm =>
    have hf := hm.ordinary.fields
    simp only [Prod.mk.injEq] at hf
    exact hkept hf.2.2.1
  | closes hm _ hd | vacuous hm _ hd => simp [hstart hm] at hd
  | closed hq =>
    have hmem : .disposeClose ∈ s.awaits := mem_awaits.mpr (Or.inl ⟨_, hq ▸ List.mem_cons_self⟩)
    exact (hno (h.underway.closing_of_mem hmem) (by simp) (by simp)).elim
  | disposed _ hq =>
    have hmem : .disposeAsync ∈ s.awaits := mem_awaits.mpr (Or.inl ⟨_, hq ▸ List.mem_cons_self⟩)
    exact (hno (h.underway.exited_of_mem hmem).1 (by simp) (by simp)).elim
  | fails | throws => exact Or.inr rfl
  | finishes => exact Or.inl rfl
  | refuses | creates | created | executes | phase | exits | env => exact hkept rfl

theorem left_next (h : Leaving s) (he : Enabled s e) :
    ((next sync p s e).left = s.left ∨ Closer (next sync p s e).left s.left) ∧
      (Advances s e → Closer (next sync p s e).left s.left) := by
  by_cases hn : Ended s
  · refine ⟨Or.inl ?_, fun hadv => absurd hn hadv.1⟩
    have hzero : ∀ {u : State σ ω}, Ended u → u.left = (0, 0, 0) := by
      rintro u (hd | hd) <;> simp [State.left, State.pending, hd, DisposeStage.left]
    rw [hzero hn, hzero (h.ended_next hn he)]
  cases e with
  | create => exact ⟨Or.inl h.step_create, fun hadv => hadv.2.elim⟩
  | opening => exact ⟨Or.inl h.step_openSocket, fun hadv => hadv.2.elim⟩
  | dispose => exact ⟨h.step_dispose, fun hadv => hadv.2.elim⟩
  | closeConnection c => exact ⟨Or.inl (h.step_closeConnection c), fun hadv => hadv.2.elim⟩
  | listenerReturn threw =>
    obtain ⟨f, rest, hq⟩ := List.exists_cons_of_ne_nil he
    have hlt : Closer (next sync p s (.listenerReturn threw)).left s.left :=
      h.step_listenerReturn hn hq threw
    exact ⟨Or.inr hlt, fun _ => hlt⟩
  | resume =>
    obtain ⟨⟨a, r⟩, rest, hq⟩ := List.exists_cons_of_ne_nil he.2
    have hlt := h.step_resume hn hq
    simp only [next, hq]
    exact ⟨Or.inr hlt, fun _ => hlt⟩
  | resumeDispose =>
    have hlt : Closer (next sync p s .resumeDispose).left s.left := h.step_resumeDispose he.2
    exact ⟨Or.inr hlt, fun _ => hlt⟩
  | exec => exact h.step_exec he
  | deliver =>
    have hlt := h.step_deliver hn he
    exact ⟨Or.inr hlt, fun _ => hlt⟩
  | pollTimer =>
    have hlt : Closer (next sync p s .pollTimer).left s.left := h.step_pollTimer hn he.2
    exact ⟨Or.inr hlt, fun _ => hlt⟩
  | pollDispose =>
    obtain ⟨hle, hlt⟩ : _ ∧ (_ → Closer (next sync p s .pollDispose).left s.left) :=
      h.step_pollDispose he.2
    exact ⟨hle, fun hadv => hlt hadv.2⟩
  | exited code =>
    have hlt : Closer (next sync p s (.exited code)).left s.left := h.step_exited he.2 code
    exact ⟨Or.inr hlt, fun _ => hlt⟩
  | env w => exact ⟨Or.inl (left_congr rfl), fun hadv => hadv.2.elim⟩

/-- Where nothing is left to be done the disposal has ended. -/
theorem ended_of_exhausted (h : Leaving s) (hex : (machine sync p).Exhausted Advances s) :
    Ended s := by
  by_contra hn
  have hadv : ∀ {e : Event ω}, Enabled s e → ¬ Advances s e := fun he => hex _ he
  have hstack : s.stack = [] := by
    by_contra hs
    exact hadv (e := .listenerReturn false) hs ⟨hn, trivial⟩
  have hmicro : s.microtasks = [] := by
    by_contra hm
    exact hadv (e := .resume) ⟨hstack, hm⟩ ⟨hn, trivial⟩
  have hresuming : s.asyncSrt.async.disposing ≠ .resuming := fun hr =>
    hadv (e := .resumeDispose) ⟨hstack, hr⟩ ⟨hn, trivial⟩
  have hi : Idle s := ⟨hstack, hmicro, hresuming⟩
  have hmain : s.asyncSrt.async.toMain = [] := by
    by_contra hm
    exact hadv (e := .deliver) ⟨hi, hm⟩ ⟨hn, trivial⟩
  cases hd : s.disposal with
  | notCalled | finished | failed =>
    have hpos := h.left_pos hn
    simp [hd, DisposeStage.left] at hpos
  | emitting =>
    have hcount := h.underway.emitting
    simp [hstack, hd] at hcount
  | closing =>
    -- the close is with the worker, which has not executed it
    have hmem := h.mem_queue hi hd
    have hlen := h.wired.length_queue
    have hworker : s.asyncSrt.async.toWorker ≠ [] := by
      intro hw
      rw [hw, hmain] at hlen
      rw [List.eq_nil_of_length_eq_zero hlen] at hmem
      cases hmem
    have hphase : s.asyncSrt.async.disposing ≠ .finished := by
      have hopen := h.ordered.unstarted (mem_awaits.mpr (Or.inr hmem))
      rw [h.wired.invariant.disposal.started.mp hopen]
      simp
    refine hadv (e := .exec) ⟨hworker, hphase⟩ ⟨hn, Or.inr ?_⟩
    simp [State.repliesAhead, hmem, hmain]
  | disposing =>
    -- the instance is not waiting for orphans, since no message was refused
    have hwind := h.winding hd
    have hinner : (AsyncApi.machine Await).Exhausted AsyncApi.Progresses s.asyncSrt.async := by
      intro ev hev hp
      cases ev with
      | call | dispose => exact hp
      | exec o => exact hadv (e := .exec) hev ⟨hn, Or.inl hd⟩
      | deliver => exact hev.1 hmain
      | callbackReturn threw => exact hev h.wired.running
      | timer k => exact hev.1 (h.untimed k)
      | pollDispose => exact hadv (e := .pollDispose) ⟨hi, hev.1⟩ ⟨hn, hp⟩
      | resumeDispose => exact hresuming hev.1
      | exited code => exact hadv (e := .exited code) ⟨hi, hev.1⟩ ⟨hn, trivial⟩
    have hfinished : s.asyncSrt.async.disposing = .finished := by
      apply hwind.finished_of_exhausted hinner
      intro hwait
      refine hwind.blocked_of_exhausted hinner hwait
        ⟨untraced_execution h.instanceRun, fun cb hcb => ?_⟩
      simp [orphans_of_posting h.wired.invariant.correlated] at hcb
    have hcount := h.underway.exiting
    have hgone := h.wired.invariant.correlated.dropped (h.wired.terminated (Or.inr hfinished))
    simp [hd, hfinished, State.awaits, hmicro, hgone] at hcount

end Leaving

theorem descending (sync : SyncSRT σ ω) (p : Config) :
    (machine sync p).Descending Advances Leaving Closer State.left where
  kept _ _ h he := h.step he
  le _ _ h he := (h.left_next he).1
  lt _ _ h he := (h.left_next he).2

/-- A disposal that has started comes to its end in every fair run: whatever libsrt answers,
whatever the polls report meanwhile, and whichever methods are called then. -/
theorem dispose_ends {n : σ} (h : (machine sync p).Execution (initial n) s)
    (hs : s.startedToDispose = true) : (machine sync p).Eventually Advances Ended s := by
  obtain ⟨hw, ho, hu⟩ := execution_underway h
  have hleaving : Leaving s := ⟨hw, ho, hu, (execution_instance h).2, hs⟩
  exact (descending sync p).eventually closer_wellFounded hleaving
    (fun _ ht hex => ht.ended_of_exhausted hex) fun _ _ ht hn he => ht.ended_next hn he

def disposedPollingRun : List (Event TableEvent) := openRun ++ [.dispose]

theorem dispose_ends_polling :
    let s := serverMachine.runTrace (initial .empty) disposedPollingRun
    serverMachine.Eventually Advances Ended s := by
  intro s
  have h : serverMachine.Execution (initial .empty) s :=
    Machine.execution_of_trace _ _ disposedPollingRun (by decide)
  have hs : s.startedToDispose = true := by decide
  exact dispose_ends h hs

end SocketAsync
