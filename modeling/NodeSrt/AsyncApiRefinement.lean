import NodeSrt.AsyncApiInvariant

/-! # AsyncSRT refines the synchronous object

The worker owns one synchronous object. Its environment may act on it between two calls;
`replay` is the synchronous object run alone on the same calls and environment actions. -/
namespace AsyncApi

open AsyncValues
open TransitionSystem

/-- The native object: how a method call ends, and what the environment does to it. -/
structure SyncSRT (σ ω : Type*) where
  call : σ → AsyncSRTWorkerPost → σ × Outcome
  env : σ → ω → σ

variable {σ ω κ : Type*}

def SyncSRT.replay (sync : SyncSRT σ ω) (n : σ) :
    List (ω ⊕ AsyncSRTWorkerPost) → σ × List Outcome
  | [] => (n, [])
  | .inl w :: ops => sync.replay (sync.env n w) ops
  | .inr post :: ops =>
    let r := sync.call n post
    let rest := sync.replay r.1 ops
    (rest.1, r.2 :: rest.2)

/-- The calls of a history, in the order in which they are made. -/
def callsOf (history : List (ω ⊕ AsyncSRTWorkerPost)) : List AsyncSRTWorkerPost :=
  history.filterMap fun
    | .inl _ => none
    | .inr post => some post

theorem replay_env (sync : SyncSRT σ ω) (n : σ) (ops : List (ω ⊕ AsyncSRTWorkerPost)) (w : ω) :
    sync.replay n (ops ++ [.inl w]) =
      (sync.env (sync.replay n ops).1 w, (sync.replay n ops).2) := by
  induction ops generalizing n with
  | nil => rfl
  | cons op ops ih => cases op <;> simp [SyncSRT.replay, ih]

theorem replay_call (sync : SyncSRT σ ω) (n : σ) (ops : List (ω ⊕ AsyncSRTWorkerPost))
    (post : AsyncSRTWorkerPost) :
    sync.replay n (ops ++ [.inr post]) =
      ((sync.call (sync.replay n ops).1 post).1,
        (sync.replay n ops).2 ++ [(sync.call (sync.replay n ops).1 post).2]) := by
  induction ops generalizing n with
  | nil => rfl
  | cons op ops ih => cases op <;> simp [SyncSRT.replay, ih]

structure Backed (σ ω κ : Type*) where
  async : AsyncSRT κ
  native : σ
  history : List (ω ⊕ AsyncSRTWorkerPost)

inductive BackedEvent (ω κ : Type*) where
  | main (e : Event κ)
  | exec
  | env (w : ω)

/-- The worker takes a message: the outcome is now that of its native object. -/
def Backed.exec (sync : SyncSRT σ ω) (s : Backed σ ω κ) (post : AsyncSRTWorkerPost) :
    Backed σ ω κ :=
  if anyUndefined post.args then { s with async := next s.async (.exec (.ok .undefined)) }
  else
    let r := sync.call s.native post
    ⟨next s.async (.exec r.2), r.1, s.history ++ [.inr post]⟩

def backedMachine (sync : SyncSRT σ ω) (κ : Type*) : Machine (Backed σ ω κ) (BackedEvent ω κ) where
  Enabled s
    | .main e => Enabled s.async e ∧ Posts s.async e ∧ e.isExec = false
    | .exec => s.async.toWorker ≠ [] ∧ s.async.disposing ≠ .finished
    | .env _ => True
  next s
    | .main e => { s with async := next s.async e }
    | .exec =>
      match s.async.toWorker with
      | post :: _ => s.exec sync post
      | [] => s
    | .env w => { s with native := sync.env s.native w, history := s.history ++ [.inl w] }

def Backed.initial (n : σ) : Backed σ ω κ := ⟨AsyncApi.initial, n, []⟩

structure Replayed (sync : SyncSRT σ ω) (n : σ) (s : Backed σ ω κ) : Prop where
  invariant : Invariant s.async
  replay : sync.replay n s.history = (s.native, s.async.executed.map Prod.snd)
  calls : callsOf s.history = s.async.executed.map Prod.fst

theorem step_replayed {sync : SyncSRT σ ω} {n : σ} {s : Backed σ ω κ} (h : Replayed sync n s)
    {e : BackedEvent ω κ} (he : (backedMachine sync κ).Enabled s e) :
    Replayed sync n ((backedMachine sync κ).next s e) := by
  cases e with
  | main e =>
    have hx := executed_of_not_exec (s := s.async) he.2.2
    refine ⟨step_preserves_invariant h.invariant ⟨he.1, he.2.1⟩, ?_, ?_⟩
    · simpa only [backedMachine, hx] using h.replay
    · simpa only [backedMachine, hx] using h.calls
  | exec =>
    cases hq : s.async.toWorker with
    | nil => exact absurd hq he.1
    | cons post rest =>
      have hstep : ∀ o, Invariant (next s.async (.exec o)) := fun o =>
        step_preserves_invariant h.invariant ⟨he, trivial⟩
      simp only [backedMachine, hq, Backed.exec]
      cases hu : anyUndefined post.args with
      | true =>
        simp only [if_true]
        exact ⟨hstep _, by simpa [next, hq, AsyncSRT.exec, hu] using h.replay,
          by simpa [next, hq, AsyncSRT.exec, hu] using h.calls⟩
      | false =>
        simp only [Bool.false_eq_true, if_false]
        refine ⟨hstep _, ?_, ?_⟩
        · simp [replay_call, h.replay, next, hq, AsyncSRT.exec, hu]
        · have hcalls := h.calls
          simp only [callsOf] at hcalls
          simp [callsOf, List.filterMap_append, hcalls, next, hq, AsyncSRT.exec, hu]
  | env w =>
    refine ⟨h.invariant, ?_, ?_⟩
    · simp only [backedMachine, replay_env, h.replay]
    · have hcalls := h.calls
      simp only [callsOf] at hcalls
      simp [backedMachine, callsOf, List.filterMap_append, hcalls]

theorem execution_replayed {sync : SyncSRT σ ω} {n : σ} {s : Backed σ ω κ}
    (h : (backedMachine sync κ).Execution (.initial n) s) : Replayed sync n s :=
  h.invariant ⟨initial_invariant, rfl, rfl⟩ fun _ _ hu he => step_replayed hu he

def SyncSRT.values (sync : SyncSRT σ ω) (n : σ) (history : List (ω ⊕ AsyncSRTWorkerPost)) :
    List ReturnValue := (sync.replay n history).2.map resultOf

theorem values_eq_replies {sync : SyncSRT σ ω} {n : σ} {s : Backed σ ω κ}
    (h : Replayed sync n s) {k : ℕ} {m : AsyncSRTWorkerMessage}
    (hm : s.async.replies[k]? = some m) : (sync.values n s.history)[k]? = some m.result := by
  have ho := h.invariant.correlated.outcomes
  rw [ho, List.getElem?_map] at hm
  obtain ⟨x, hx, rfl⟩ := Option.map_eq_some_iff.mp hm
  simp [SyncSRT.values, h.replay, hx]

/-- The worker executes the calls in posting order. Call `k` is the `k`-th one posted; its
callback is called at most once and in that order, with the value the synchronous object
gives for the `k`-th call. Its promise fulfils with that value or rejects by its timeout. -/
theorem async_refines_sync (sync : SyncSRT σ ω) (n : σ) {s : Backed σ ω κ}
    (h : (backedMachine sync κ).Execution (.initial n) s) :
    callsOf s.history <+: s.async.posted.map Prod.snd ∧
    s.async.posted.map (fun p => p.1.call) = List.range s.async.posted.length ∧
    (s.async.callbacks.map Prod.fst).Pairwise (· < ·) ∧
    (∀ x ∈ s.async.callbacks, (sync.values n s.history)[x.1]? = some x.2) ∧
    (∀ k v, s.async.promise k = .fulfilled v → (sync.values n s.history)[k]? = some v) ∧
    ∀ k e, s.async.promise k = .rejected e → ∃ ms p, s.async.posted[k]? = some p ∧
      p.1.useTimeout = true ∧ e = .timeoutExceeded ms p.2 := by
  have hr := execution_replayed h
  obtain ⟨hc, hs, _⟩ := hr.invariant
  refine ⟨?_, ?_, hs.ordered, ?_, ?_, ?_⟩
  · rw [hr.calls, hc.calls]
    exact List.take_prefix _ _
  · rw [hc.posted_length]
    exact hc.ids
  · intro x hx
    obtain ⟨_, m, hm, hv⟩ := hs.logged x hx
    rw [values_eq_replies hr hm, hv]
  · intro k v hp
    obtain ⟨_, m, hm, hv⟩ := hs.fulfilled k v hp
    rw [values_eq_replies hr hm, hv]
  · intro k e hp
    obtain ⟨ms, p, hpos, hu, hpr⟩ := hs.late k (hs.refused k e hp)
    rw [hp] at hpr
    exact ⟨ms, p, hpos, hu, Settlement.rejected.inj hpr⟩

/-- A native object that numbers the sockets it creates and refuses everything else. -/
def countingSync : SyncSRT ℤ Unit where
  call n post := match post.method with
    | .createSocket => (n + 1, .ok (.number n))
    | _ => (n, .error ⟨[]⟩)
  env n _ := n + 10

/-- Two calls, a re-entrant one from the callback of the first, and a timed-out accept. -/
def reentrantRun : List (BackedEvent Unit Unit) :=
  [.main (.call (.createSocket .undefined) true ()), .exec, .env (),
    .main (.call (.accept (.number 5) true 3) true ()), .main .deliver,
    .main (.call (.createSocket (.boolean true)) false ()), .main (.callbackReturn false),
    .main (.timer 1), .exec, .main .deliver, .main (.callbackReturn true), .exec,
    .main .deliver]

instance (sync : SyncSRT σ ω) (s : Backed σ ω κ) :
    (e : BackedEvent ω κ) → Decidable ((backedMachine sync κ).Enabled s e)
  | .main e => inferInstanceAs (Decidable (Enabled s.async e ∧ Posts s.async e ∧ _ = _))
  | .exec => inferInstanceAs (Decidable (s.async.toWorker ≠ [] ∧ s.async.disposing ≠ .finished))
  | .env _ => isTrue trivial

theorem async_refines_sync_reentrantRun :
    let s := (backedMachine countingSync Unit).runTrace (.initial 5) reentrantRun
    (s.async.callbacks.map Prod.fst).Pairwise (· < ·) ∧
      s.async.promise 2 = .fulfilled (.number 16) ∧
      (countingSync.values 5 s.history)[2]? = some (.number 16) := by
  have h := async_refines_sync countingSync 5
    ((backedMachine countingSync Unit).execution_of_trace _ reentrantRun
      (by decide))
  have hp : ((backedMachine countingSync Unit).runTrace (.initial 5) reentrantRun).async.promise 2
      = .fulfilled (.number 16) := by decide
  exact ⟨h.2.2.1, hp, h.2.2.2.2.1 2 _ hp⟩

end AsyncApi
