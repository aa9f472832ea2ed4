import NodeSrt.NativeMethods

/-! # The error that getError gives

`getError` gives the last error that came with a reply. Inside the callback of a call that gave
`SRT_ERROR` it is the error of this call in the runs in which the call has thrown one and the
reply is given to the callback it is for. -/
namespace AsyncApi

open AsyncValues
open TransitionSystem
open NativeSrt

variable {σ ω κ : Type*} {s : AsyncSRT κ}

def AsyncSRT.getError (s : AsyncSRT κ) : Option NativeError := s.error

/-- While a callback runs that was given `SRT_ERROR`, `getError` gives the error its own call
raised. -/
def GetErrorExplains (s : AsyncSRT κ) : Prop :=
  ∀ cb late, s.running = some (cb, late) → (cb.call, .number SRT_ERROR) ∈ s.callbacks →
    ∃ post err, s.posted[cb.call]? = some (cb, post) ∧
      s.executed[cb.call]? = some (post, .error err) ∧ s.getError = some err

def apiMachine (sync : SyncSRT σ ω) (κ : Type*) : Machine (Backed σ ω κ) (BackedEvent ω κ) where
  Enabled s
    | .main e => Enabled s.async e ∧ e.isExec = false
    | .exec => s.async.toWorker ≠ [] ∧ s.async.disposing ≠ .finished
    | .env _ => True
  next := (backedMachine sync κ).next

/-- No `postMessage` throws, and the worker executes no call that has a callback and gives
`SRT_ERROR` without throwing. -/
def Raises (more : Methods σ) (s : Backed σ ω κ) : BackedEvent ω κ → Prop
  | .main e => Posts s.async e
  | .exec => ∀ p, s.async.posted[s.async.replies.length]? = some p → p.1.callback = true →
      ¬ more.Silent s.native p.2
  | .env _ => True

/-! ## Invariant -/

/-- A call with a callback that gave `SRT_ERROR` has thrown. -/
structure Explained (s : AsyncSRT κ) : Prop where
  raised : ∀ (k : ℕ) (p : OnResult κ × AsyncSRTWorkerPost) (x : AsyncSRTWorkerPost × Outcome),
    s.posted[k]? = some p → s.executed[k]? = some x → p.1.callback = true →
    x.2 ≠ .ok (.number SRT_ERROR)
  explains : GetErrorExplains s

theorem initial_explained : Explained (initial : AsyncSRT κ) := by
  constructor
  · simp [initial]
  · intro cb late hrun
    cases hrun

namespace Explained

theorem raised_of_prefix {t : AsyncSRT κ} (h : Explained s) (hc : Correlated s)
    (hp : s.posted <+: t.posted) (hx : t.executed = s.executed) {k : ℕ}
    {p : OnResult κ × AsyncSRTWorkerPost} {x : AsyncSRTWorkerPost × Outcome}
    (hpost : t.posted[k]? = some p) (hexec : t.executed[k]? = some x)
    (hcb : p.1.callback = true) : x.2 ≠ .ok (.number SRT_ERROR) := by
  rw [hx] at hexec
  have hk : k < s.posted.length := by
    have hlt := (List.getElem?_eq_some_iff.mp hexec).1
    have hle := hc.transit.served_le
    rw [hc.executed_length] at hlt
    rw [List.length_map] at hle
    exact lt_of_lt_of_le hlt hle
  obtain ⟨rest, hrest⟩ := hp
  rw [← hrest, List.getElem?_append_left hk] at hpost
  exact h.raised k p x hpost hexec hcb

theorem frame {t : AsyncSRT κ} (h : Explained s) (hc : Correlated s) (hp : s.posted <+: t.posted)
    (hx : t.executed = s.executed)
    (he : t.running = none ∨
      (t.running, t.callbacks, t.error) = (s.running, s.callbacks, s.error)) : Explained t := by
  refine ⟨fun k p x hpost hexec => h.raised_of_prefix hc hp hx hpost hexec, ?_⟩
  intro cb late hrun hmem
  rcases he with he | he
  · rw [he] at hrun
    cases hrun
  · simp only [Prod.mk.injEq] at he
    obtain ⟨hr, hcb, herr⟩ := he
    rw [hr] at hrun
    rw [hcb] at hmem
    obtain ⟨post, err, hpost, hexec, hget⟩ := h.explains cb late hrun hmem
    obtain ⟨rest, hrest⟩ := hp
    have hlt := (List.getElem?_eq_some_iff.mp hpost).1
    exact ⟨post, err, by rw [← hrest, List.getElem?_append_left hlt, hpost], hx ▸ hexec,
      herr.trans hget⟩

/-- The reply of a call that has thrown carries its error to the instance. -/
theorem step_deliver (h : Explained s) (hi : Invariant s) (hrun : s.running = none)
    {data : AsyncSRTWorkerMessage} {rest : List AsyncSRTWorkerMessage}
    (hm : s.toMain = data :: rest) : Explained (s.deliver data) := by
  obtain ⟨hc, hs, -⟩ := hi
  cases hw : s.worker with
  | false =>
    rw [deliver_of_disposed hw]
    exact h.frame hc (List.prefix_refl _) rfl (Or.inl hrun)
  | true =>
    obtain ⟨p, ks, hq, hpost, hcall, -, hreply, -⟩ := hc.head hw hm
    obtain ⟨o, hexec, rfl⟩ := hc.executed_at hpost hreply
    rw [deliver_of_queue hw hq, onResult_eq]
    refine ⟨fun k p x hpost hexec hcb => h.raised k p x hpost hexec hcb, ?_⟩
    intro cb late hrun' hmem
    simp only at hrun' hmem
    cases hcb : p.1.callback with
    | false =>
      simp only [hcb, Bool.false_eq_true, if_false, hrun] at hrun'
      cases hrun'
    | true =>
      simp only [hcb, if_true, Option.some.injEq, Prod.mk.injEq] at hrun' hmem
      obtain ⟨rfl, -⟩ := hrun'
      have hlast : resultOf o = .number SRT_ERROR := by
        rcases List.mem_append.mp hmem with hold | hnew
        · have hlt := (hs.logged _ hold).1
          simp only [hcall] at hlt
          exact absurd hlt (lt_irrefl _)
        · simpa using (List.mem_singleton.mp hnew).symm
      have herr : ∃ err, o = .error err := by
        cases o with
        | error err => exact ⟨err, rfl⟩
        | ok v =>
          have hv : v = .number SRT_ERROR := hlast
          exact absurd (by rw [hv]) (h.raised _ p _ hpost hexec hcb)
      obtain ⟨err, rfl⟩ := herr
      exact ⟨p.2, err, by simpa only [hcall] using hpost, by simpa only [hcall] using hexec, rfl⟩

theorem step_terminate (h : Explained s) (hc : Correlated s) : Explained s.terminateWorker := by
  cases hw : s.worker <;> simp only [AsyncSRT.terminateWorker, hw, if_true, if_false,
    Bool.false_eq_true]
  all_goals exact h.frame hc (List.prefix_refl _) rfl (Or.inr rfl)

theorem step_main (h : Explained s) (hi : Invariant s) {e : Event κ} (he : Enabled s e)
    (hp : Posts s e) (hx : e.isExec = false) : Explained (next s e) := by
  have hc := hi.correlated
  cases e with
  | call c callback waiter =>
    rcases call_cases s c with hearly | hacc | hthrow | hlost
    · obtain ⟨n, eq⟩ := apiCall_of_early hearly callback waiter
      simp only [next, eq]
      exact h.frame hc (List.prefix_refl _) rfl (Or.inr rfl)
    · simp only [next, apiCall_of_accepts hacc]
      exact h.frame hc (List.prefix_append _ _) rfl (Or.inr rfl)
    · exact absurd hthrow hp
    · simp only [next, apiCall_of_untraced hlost]
      exact h.frame hc (List.prefix_refl _) rfl (Or.inr rfl)
  | dispose =>
    rcases dispose_cases s with ⟨_, eq⟩ | ⟨_, _, eq⟩ | ⟨_, _, eq⟩ <;> simp only [next, eq]
    · exact h
    · exact h.frame hc (List.prefix_refl _) rfl (Or.inr rfl)
    · have hstart : Explained { s with startedToDispose := true } :=
        h.frame hc (List.prefix_refl _) rfl (Or.inr rfl)
      exact hstart.step_terminate (hc.frame rfl)
  | exec o => cases hx
  | deliver =>
    cases hm : s.toMain with
    | nil => exact absurd hm he.1
    | cons data rest => simpa only [next, hm] using h.step_deliver hi he.2 hm
  | callbackReturn threw =>
    simp only [next]
    split
    · exact h.frame hc (List.prefix_refl _) rfl (Or.inl rfl)
    · exact h
  | timer k =>
    simp only [next]
    split
    · exact h.frame hc (List.prefix_refl _) rfl (Or.inr rfl)
    · exact h
  | pollDispose =>
    simp only [next]
    split
    · exact h.frame hc (List.prefix_refl _) rfl (Or.inr rfl)
    · exact h
  | resumeDispose => exact h.step_terminate hc
  | exited code => exact h.frame hc (List.prefix_refl _) rfl (Or.inr rfl)

theorem step_exec (h : Explained s) (hc : Correlated s) {data : AsyncSRTWorkerPost}
    {rest : List AsyncSRTWorkerPost} (hq : s.toWorker = data :: rest) {o : Outcome}
    (ho : ∀ p, s.posted[s.replies.length]? = some p → p.1.callback = true → p.2 = data →
      o ≠ .ok (.number SRT_ERROR)) : Explained (s.exec data o) := by
  have ht := hc.transit
  rw [hq] at ht
  obtain ⟨q, hqpost, hqdata⟩ : ∃ p, s.posted[s.replies.length]? = some p ∧ p.2 = data := by
    simpa using ht.served_next
  have hd : anyUndefined data.args = false :=
    hqdata ▸ hc.defined q (List.mem_of_getElem? hqpost)
  constructor
  · intro k p x hpost hexec hcb
    rw [exec_executed s hd] at hexec
    rcases OrderedPort.getElem?_concat_cases hexec with hold | ⟨hk, hnew⟩
    · exact h.raised k p x hpost hold hcb
    · rw [hc.executed_length] at hk
      subst hk
      have hpq : p = q := Option.some.inj (hpost.symm.trans hqpost)
      rw [hnew]
      exact ho p hpost hcb (hpq ▸ hqdata)
  · intro cb late hrun hmem
    obtain ⟨post, err, hpost, hexec, hget⟩ := h.explains cb late hrun hmem
    have hlt := (List.getElem?_eq_some_iff.mp hexec).1
    refine ⟨post, err, hpost, ?_, hget⟩
    rw [exec_executed s hd, List.getElem?_append_left hlt]
    exact hexec

end Explained

/-! ## Runs -/

theorem step_explained {lib : Libsrt σ ω} {more : Methods σ} (hs : lib.States) {n : σ}
    {b : Backed σ ω κ} (hr : Replayed (nodeSRT (lib.withMethods more)) n b)
    (h : Explained b.async) {e : BackedEvent ω κ}
    (he : ((apiMachine (nodeSRT (lib.withMethods more)) κ).restrict (Raises more)).Enabled b e) :
    Explained ((apiMachine (nodeSRT (lib.withMethods more)) κ).next b e).async := by
  cases e with
  | main e => exact h.step_main hr.invariant he.1.1 he.2 he.1.2
  | exec =>
    cases hq : b.async.toWorker with
    | nil => exact absurd hq he.1.1
    | cons data rest =>
      simp only [apiMachine, backedMachine, hq, Backed.exec]
      have hstep : ∀ o, (∀ p, b.async.posted[b.async.replies.length]? = some p →
          p.1.callback = true → p.2 = data → o ≠ .ok (.number SRT_ERROR)) →
          Explained (next b.async (.exec o)) := by
        intro o ho
        simpa only [next, hq] using h.step_exec hr.invariant.correlated hq ho
      split
      · exact hstep _ fun _ _ _ _ he => by cases he
      · refine hstep _ fun p hp hcb hdata ho => ?_
        have hsilent := he.2 p hp hcb
        rw [hdata] at hsilent
        exact hsilent ((native_silent_iff hs data).mp ho)
  | env w => exact h

/-- In the runs in which no `postMessage` throws, and no call with a callback gives `SRT_ERROR`
without throwing, `getError` explains every failure to the callback that is told of it. -/
theorem get_error_explains {lib : Libsrt σ ω} (more : Methods σ) (hs : lib.States) (n : σ)
    {b : Backed σ ω κ}
    (h : ((apiMachine (nodeSRT (lib.withMethods more)) κ).restrict (Raises more)).Execution
      (.initial n) b) : GetErrorExplains b.async := by
  have hall := h.invariant
    (I := fun b => Replayed (nodeSRT (lib.withMethods more)) n b ∧ Explained b.async)
    ⟨⟨initial_invariant, rfl, rfl⟩, initial_explained⟩ fun b e hb he => by
      refine ⟨step_replayed hb.1 ?_, step_explained hs hb.1 hb.2 he⟩
      cases e with
      | main e => exact ⟨he.1.1, he.2, he.1.2⟩
      | exec => exact he.1
      | env w => trivial
  exact hall.2.explains

def refusingLibsrt : Libsrt Unit Unit where
  run _ _ := ((), ⟨SRT_ERROR, []⟩)
  getsockstate _ _ := SRTS_NONEXIST
  getlasterrorStr _ := ascii "Operation not supported"
  inetPton _ := none
  other _ _ := ((), .error ⟨[]⟩)
  env _ _ := ()
  handedOut _ _ := False
  subscribed _ _ _ := False

def refusingMethods : Methods Unit where
  setsockflag _ _ _ _ := ((), SRT_ERROR)
  getsockflag _ _ _ _ := ((), SRT_ERROR, [])
  getlasterrorStr _ := ascii "Operation not supported"
  uninitialised _ optSize := List.replicate optSize 0
  recvmsg _ _ _ := ((), SRT_ERROR, [])
  sendmsg2 _ _ _ := ((), SRT_ERROR)
  setloglevel _ _ := ()
  bstats _ _ _ := ((), SRT_ERROR, [])
  mistyped _ _ := ((), ⟨ascii "A number was expected"⟩)

abbrev refusingMachine : Machine (Backed Unit Unit Unit) (BackedEvent Unit Unit) :=
  apiMachine (nodeSRT (refusingLibsrt.withMethods refusingMethods)) Unit

/-- A call with a callback, up to where the callback runs. -/
def calledBack (c : ApiCall) : Backed Unit Unit Unit :=
  refusingMachine.runTrace (.initial ()) [.main (.call c true ()), .exec, .main .deliver]

theorem get_error_explains_close :
    (calledBack (.close (.number 1))).async.callbacks = [(0, .number SRT_ERROR)] ∧
      (calledBack (.close (.number 1))).async.getError =
        some ⟨ascii "Operation not supported"⟩ ∧
      GetErrorExplains (calledBack (.close (.number 1))).async := by
  have hs : refusingLibsrt.States := fun _ _ => (by decide : SRTS_NONEXIST ≠ SRT_ERROR)
  have hrun : (refusingMachine.restrict (Raises refusingMethods)).Execution (.initial ())
      (calledBack (.close (.number 1))) := by
    refine Machine.execution_of_trace (refusingMachine.restrict (Raises refusingMethods)) _
      [.main (.call (.close (.number 1)) true ()), .exec, .main .deliver]
      ⟨⟨⟨trivial, rfl⟩, (by decide : Posts AsyncApi.initial (.call (.close (.number 1)) true ()))⟩,
        ⟨⟨by decide, by decide⟩, ?_⟩, ⟨⟨by decide, rfl⟩, trivial⟩, trivial⟩
    rintro p hp -
    cases hp
    exact id
  exact ⟨by decide, by decide, get_error_explains refusingMethods hs () hrun⟩

/-- The log level 8 is refused without an error. -/
theorem refused_log_level_is_unexplained :
    ¬ ∀ (lib : Libsrt Unit Unit) (more : Methods Unit) (b : Backed Unit Unit Unit), lib.States →
      (apiMachine (nodeSRT (lib.withMethods more)) Unit).Execution (.initial ()) b →
      GetErrorExplains b.async := by
  intro h
  have hs : refusingLibsrt.States := fun _ _ => (by decide : SRTS_NONEXIST ≠ SRT_ERROR)
  have hrun : refusingMachine.Execution (.initial ()) (calledBack (.setLogLevel (.number 8))) :=
    refusingMachine.execution_of_trace _
      [.main (.call (.setLogLevel (.number 8)) true ()), .exec, .main .deliver]
      ⟨⟨trivial, rfl⟩, ⟨by decide, by decide⟩, ⟨by decide, rfl⟩, trivial⟩
  have hnone : (calledBack (.setLogLevel (.number 8))).async.getError = none := by decide
  obtain ⟨_, _, -, -, hget⟩ := h refusingLibsrt refusingMethods _ hs hrun ⟨0, (), true, false⟩
    false rfl (by decide)
  rw [hnone] at hget
  cases hget

end AsyncApi
