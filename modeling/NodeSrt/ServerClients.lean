import NodeSrt.ServerBacklog
import NodeSrt.ServerEvents

/-! # The clients of a server

A connection that has a socket goes back to an `accept` that gave one, and no two connections
go back to the same. The native `Accept` closes the socket it accepts from, and a server
listens on one: it has one client in its life. -/
namespace SocketAsync

open AsyncValues
open TransitionSystem
open AsyncApi
open NativeSrt
open ServerConnection (SRTServerConnection)

variable {σ ω : Type*} {lib : Libsrt σ ω} {sync : SyncSRT σ ω} {p : Config} {s t u : State σ ω}
  {e : Event ω} {n : σ}

/-! ## From an accept to a connection -/

def isSocket : JSValue → Bool
  | .number k => k ≠ SRT_ERROR
  | _ => false

/-- The native `accept` has given the socket of a client. -/
def givesClient : AsyncSRTWorkerPost × Outcome → Bool
  | (post, .ok v) => post.method = .accept && isSocket (Slot.ofReply v).toValue
  | (_, .error _) => false

def learnsClient : Await × Except Failure ReturnValue → Bool
  | (.handling .accept, .ok v) => isSocket (Slot.ofReply v).toValue
  | _ => false

def Await.addsClient : Await → Bool
  | .handling (.epollAddUsock fd) => isSocket fd.toValue
  | _ => false

/-- The clients that are on their way to a connection or have one. -/
def State.clients (s : State σ ω) : ℕ :=
  s.microtasks.countP learnsClient + s.awaits.countP Await.addsClient + s.fds.countP isSocket

def State.answeredClients (s : State σ ω) : ℕ :=
  (s.asyncSrt.async.executed.take s.asyncSrt.async.answered).countP givesClient

theorem countP_of_count {α : Type*} [BEq α] [LawfulBEq α] {P : α → Bool} {l m : List α}
    (h : ∀ a, P a = true → l.count a = m.count a) : l.countP P = m.countP P := by
  have hperm : (l.filter P).Perm (m.filter P) := by
    rw [List.perm_iff_count]
    intro a
    by_cases ha : P a = true
    · rw [List.count_filter ha, List.count_filter ha, h a ha]
    · have hnot : ∀ l : List α, a ∉ l.filter P := fun l hmem => ha (List.mem_filter.mp hmem).2
      rw [List.count_eq_zero_of_not_mem (hnot l), List.count_eq_zero_of_not_mem (hnot m)]
  rw [List.countP_eq_length_filter, List.countP_eq_length_filter, hperm.length_eq]

theorem countP_single {α : Type*} (P : α → Bool) (a : α) : [a].countP P = (P a).toNat := by
  rw [List.countP_singleton]
  cases P a <;> rfl

theorem eq_of_learnsClient {y : Await × Except Failure ReturnValue} (h : learnsClient y = true) :
    ∃ v, y = (.handling .accept, .ok v) ∧ isSocket (Slot.ofReply v).toValue = true := by
  obtain ⟨a, r⟩ := y
  unfold learnsClient at h
  split at h
  · rename_i v heq
    exact ⟨v, heq, h⟩
  · cases h

theorem Await.eq_of_addsClient {a : Await} (h : a.addsClient = true) :
    ∃ fd, a = .handling (.epollAddUsock fd) ∧ isSocket fd.toValue = true := by
  unfold Await.addsClient at h
  split at h
  · exact ⟨_, rfl, h⟩
  · cases h

def Welcomes (s : State σ ω) (e : Event ω) : Prop :=
  e = .resume ∧ ∃ r rest, s.microtasks = (.handling .accept, r) :: rest ∨
    ∃ fd, s.microtasks = (.handling (.epollAddUsock fd), r) :: rest

theorem Prompted.not_adds {x : Prompt} (hx : Prompted s e x u) (hn : ¬ Welcomes s e) (fd : Slot)
    (post : AsyncSRTWorkerPost) : ¬ Calls p u x (.handling (.epollAddUsock fd)) post := by
  intro hc
  cases hc
  cases hx with
  | await hs hq => exact hn ⟨rfl, _, _, Or.inl hq⟩

theorem clients_next_of_not_welcomes (hw : Wired s) (he : Enabled s e) (hd : e ≠ .deliver)
    (hn : ¬ Welcomes s e) : (next sync p s e).clients = s.clients := by
  have hc : Change sync p s e (next sync p s e) := hw.changes he
  have hmicro : (next sync p s e).microtasks.countP learnsClient =
      s.microtasks.countP learnsClient := by
    apply countP_of_count
    intro y hy
    obtain ⟨v, rfl, hv⟩ := eq_of_learnsClient hy
    apply hc.count_microtasks (y := (.handling .accept, .ok v)) hw hd rfl
    · exact fun rest hr hq => hn ⟨hr, _, rest, Or.inl hq⟩
    · intro x u hx
      refine ⟨?_, ?_⟩
      · rintro ⟨⟨_, _, _, -, hcl⟩, -⟩
        cases hcl
      · rintro ⟨-, ⟨_, hr⟩ | ⟨hr, -⟩⟩
        · cases hr
        · cases hr
          cases hv
  have hawaits : (next sync p s e).awaits.countP Await.addsClient =
      s.awaits.countP Await.addsClient := by
    apply countP_of_count
    intro a ha
    obtain ⟨fd, rfl, -⟩ := Await.eq_of_addsClient ha
    apply hc.count_awaits hw rfl
    · exact fun r rest hr hq => hn ⟨hr, r, rest, Or.inr ⟨fd, hq⟩⟩
    · intro x u hx
      refine ⟨?_, fun post => hx.not_adds hn fd post⟩
      rintro ⟨_, _, _, -, hcl⟩
      cases hcl
  have hfds : (next sync p s e).fds = s.fds := by
    have hkept : (_, (next sync p s e).connectionMap) = (_, s.connectionMap) :=
      Announces.kept hw he fun ⟨hr, hcon⟩ => by
        obtain ⟨fd, v, rest, hq⟩ := Announces.exists_of_connecting hcon
        exact hn ⟨hr, _, rest, Or.inr ⟨fd, hq⟩⟩
    exact (Prod.mk.inj hkept).1
  rw [State.clients, State.clients, hmicro, hawaits, hfds]

theorem clients_post (hw : Wired s) {c : ApiCall} (hc : Simple c) {a : Await}
    (ha : a ≠ .handling .accept) :
    (s.post c a).clients = s.clients + a.addsClient.toNat := by
  have hawaits := (post_frame hw.invariant hc a).1
  obtain ⟨-, -, qs, ms, -, -, hm, -, hms⟩ := hw.post_sends hc a
  have hnone : ms.countP learnsClient = 0 := by
    rw [List.countP_eq_zero]
    intro y hy hl
    obtain ⟨v, rfl, -⟩ := eq_of_learnsClient hl
    exact ha (hms _ hy).1.symm
  have hfds : (s.post c a).fds = s.fds := by
    have hsame := post_same s c a
    simp only [Prod.mk.injEq] at hsame
    rw [State.fds, State.fds, hsame.2.2]
  rw [State.clients, State.clients, hawaits.countP_eq, hm, hfds, List.countP_append,
    List.countP_append, hnone, countP_single]
  omega

theorem clients_pop {y : Await × Except Failure ReturnValue}
    {rest : List (Await × Except Failure ReturnValue)} (hq : s.microtasks = y :: rest) :
    s.clients = ({ s with microtasks := rest } : State σ ω).clients +
      (learnsClient y).toNat + y.1.addsClient.toNat := by
  have hawaits := awaits_pop (t := { s with microtasks := rest }) hq rfl
  have hfds : ({ s with microtasks := rest } : State σ ω).fds = s.fds := rfl
  rw [State.clients, State.clients, hawaits, hq, hfds, ← List.singleton_append (l := rest),
    ← List.singleton_append (l := State.awaits _), List.countP_append, List.countP_append,
    countP_single, countP_single]
  dsimp only
  omega

/-- A handler passes its client on, or fails. -/
theorem clients_next_of_welcomes (hw : Wired s) (hn : Welcomes s e) :
    (next sync p s e).clients ≤ s.clients := by
  obtain ⟨rfl, r, rest, hq | ⟨fd, hq⟩⟩ := hn
  · have hpop := clients_pop hq
    cases r with
    | error f =>
      have hnext : next sync p s .resume = { s with microtasks := rest }.reject f := by
        simp [next, hq, State.resume]
      have hsame : ({ s with microtasks := rest }.reject f).clients =
          ({ s with microtasks := rest } : State σ ω).clients := rfl
      rw [hnext, hsame]
      omega
    | ok v =>
      have hnext : next sync p s .resume = { s with microtasks := rest }.subscribe (.ofReply v)
          (.handling (.epollAddUsock (.ofReply v))) := by
        simp [next, hq, State.resume, State.resumeHandle]
      have hpost := clients_post (hw.pop hq) (a := .handling (.epollAddUsock (.ofReply v)))
        (simple_epollAddUsock s.epid (.ofReply v) (SRT_EPOLL_IN + SRT_EPOLL_ERR)) (by simp)
      rw [hnext]
      refine hpost.le.trans ?_
      simp only [learnsClient, Await.addsClient] at hpop ⊢
      omega
  · have hpop := clients_pop hq
    cases r with
    | error f =>
      have hnext : next sync p s .resume = { s with microtasks := rest }.reject f := by
        simp [next, hq, State.resume]
      have hsame : ({ s with microtasks := rest }.reject f).clients =
          ({ s with microtasks := rest } : State σ ω).clients := rfl
      rw [hnext, hsame]
      omega
    | ok v =>
      have hfds : ({ s with microtasks := rest }.connect fd : State σ ω).fds =
          s.fds ++ [fd.toValue] := by
        simp [State.fds, State.connect, State.emit, SRTServerConnection.construct]
      have hconnect : ({ s with microtasks := rest }.connect fd : State σ ω).clients =
          ({ s with microtasks := rest } : State σ ω).clients + (isSocket fd.toValue).toNat := by
        have hrest : ({ s with microtasks := rest } : State σ ω).fds = s.fds := rfl
        rw [State.clients, State.clients, hfds, hrest, List.countP_append, countP_single]
        exact (Nat.add_assoc _ _ _).symm
      rw [Announces.next_connects hq, hconnect]
      simp only [learnsClient, Await.addsClient] at hpop
      omega

theorem clients_deliver (hw : Wired s) (he : Enabled s (.deliver : Event ω)) :
    s.deliver.clients + s.answeredClients ≤ s.clients + s.deliver.answeredClients := by
  obtain ⟨q, ks, o, hq, hx, heq, hqueue, hks, -, -, hanswered⟩ := hw.deliver_at he.2
  obtain ⟨-, -, hnil, -, -, hf⟩ := hw.delivers he
  simp only [Prod.mk.injEq] at hf
  obtain ⟨-, -, -, -, -, -, -, hexec, -⟩ := hf
  have hawaits : s.deliver.awaits = s.awaits := by
    simp [heq, State.awaits, State.wake, State.setAsync, hnil, hqueue, hks]
  have hmicro : s.deliver.microtasks = [(q.1.waiter, .ok (resultOf o))] := by
    simp [heq, State.wake, State.setAsync, hnil]
  have hfds : s.deliver.fds = s.fds := by
    rw [heq]
    rfl
  have hcount : s.deliver.answeredClients =
      s.answeredClients + (givesClient (q.2, o)).toNat := by
    have hans : s.deliver.asyncSrt.async.answered = s.asyncSrt.async.answered + 1 := by
      rw [← hanswered, heq]
      rfl
    rw [State.answeredClients, State.answeredClients, hans, hexec, List.take_add_one, hx,
      List.countP_append]
    exact congrArg _ (countP_single _ _)
  -- a reply that tells of a client is that of an `accept` that gave one
  have hgives : learnsClient (q.1.waiter, .ok (resultOf o)) = true →
      givesClient (q.2, o) = true := by
    intro hl
    obtain ⟨v, hy, hv⟩ := eq_of_learnsClient hl
    obtain ⟨hwait, hres⟩ := Prod.mk.inj hy
    have hmethod : q.2.method = .accept :=
      hw.method_of_waiter (List.mem_of_getElem? hq) hwait rfl
    cases o with
    | ok w =>
      obtain rfl : w = v := Except.ok.inj hres
      simp [givesClient, hmethod, hv]
    | error err =>
      obtain rfl : ReturnValue.number SRT_ERROR = v := Except.ok.inj hres
      simp [isSocket, Slot.ofReply, Slot.toValue] at hv
  have hlearns : [(q.1.waiter, Except.ok (resultOf o))].countP learnsClient ≤
      (givesClient (q.2, o)).toNat := by
    rw [countP_single]
    exact Bool.toNat_le_toNat hgives
  rw [State.clients, State.clients, hawaits, hmicro, hfds, hnil, hcount, List.countP_nil]
  omega

theorem Wired.answered_le (hw : Wired s) :
    s.asyncSrt.async.answered ≤ s.asyncSrt.async.executed.length := by
  have hc := hw.invariant.correlated
  rw [hc.executed_length]
  exact hc.transit.received_le

theorem answeredClients_next (hw : Wired s) (he : Enabled s e) (hd : e ≠ .deliver) :
    (next sync p s e).answeredClients = s.answeredClients := by
  have hc : Change sync p s e (next sync p s e) := hw.changes he
  obtain ⟨rs, hrs⟩ := hc.executed hw
  rw [State.answeredClients, State.answeredClients, (hc.stays hw hd).1, ← hrs,
    List.take_append_of_le_length hw.answered_le]

theorem clients_step (hw : Wired s) (he : Enabled s e) (h : s.clients ≤ s.answeredClients) :
    (next sync p s e).clients ≤ (next sync p s e).answeredClients := by
  by_cases hd : e = .deliver
  · subst hd
    have hdeliver := clients_deliver hw he
    change s.deliver.clients ≤ s.deliver.answeredClients
    omega
  · rw [answeredClients_next hw he hd]
    refine le_trans ?_ h
    by_cases hn : Welcomes s e
    · exact clients_next_of_welcomes hw hn
    · exact (clients_next_of_not_welcomes hw he hd hn).le

/-- No two connections go back to one `accept`. -/
theorem execution_clients (h : (machine sync p).Execution (initial n) s) :
    s.clients ≤ s.answeredClients := by
  have main : Wired s ∧ s.clients ≤ s.answeredClients := by
    refine h.invariant (I := fun s => Wired s ∧ s.clients ≤ s.answeredClients)
      ⟨initial_wired n, ?_⟩ fun u e hu he => ⟨step_wired hu.1 he, clients_step hu.1 he hu.2⟩
    simp [State.clients, State.fds, initial, State.awaits, Backed.initial, AsyncApi.initial]
  exact main.2

/-! ## One accept -/

/-- What a socket is after it has accepted, and that it is one. -/
structure AcceptsOnce (lib : Libsrt σ ω) (s : State σ ω) : Prop where
  ended : ∀ x ∈ s.asyncSrt.async.executed, givesClient x = true →
    ∀ u, x.1 = acceptPost (.number u) →
      lib.handedOut s.asyncSrt.native u ∧ ¬ lib.Open s.asyncSrt.native u
  once : s.asyncSrt.async.executed.countP givesClient ≤ 1

theorem eq_of_givesClient {x : AsyncSRTWorkerPost × Outcome} (h : givesClient x = true) :
    x.1.method = .accept ∧ ∃ v, x.2 = .ok v := by
  obtain ⟨post, o⟩ := x
  cases o with
  | ok v =>
    simp only [givesClient, Bool.and_eq_true, decide_eq_true_eq] at h
    exact ⟨h.1, v, rfl⟩
  | error err => cases h

/-- A server accepts from the socket that it has made listen. -/
theorem Grounded.heard_of_accept (hg : Grounded p s) (hw : Wired s)
    {q : OnResult Await × AsyncSRTWorkerPost} (hq : q ∈ s.asyncSrt.async.posted)
    (hm : q.2.method = .accept) :
    ∃ u, q.2 = acceptPost (.number u) ∧ Heard s (.number u) := by
  have hmatch := hw.matched q hq
  have hj := hg.justified q hq
  rw [hm] at hmatch
  rw [Await.eq_accept hmatch] at hj
  obtain ⟨event, -, hheard, -, hpost⟩ := hj
  exact ⟨event.socket, hpost, hheard⟩

theorem listening_of_accepted (ha : lib.AcceptsListening) {m : σ} {u : ℤ} {v : ReturnValue}
    (h : (lib.accept m u).2 = .ok v) : lib.handedOut m u ∧ lib.Listening m u := by
  apply ha.accept_listens
  intro herr
  simp only [Libsrt.accept, if_pos herr, Libsrt.throwLast] at h
  cases h

namespace AcceptsOnce

theorem of_acts (h : AcceptsOnce lib s) (hl : lib.Lawful) {m : σ}
    (hacts : lib.Acts (fun _ => True) s.asyncSrt.native m)
    (he : (t.asyncSrt.native, t.asyncSrt.async.executed) = (m, s.asyncSrt.async.executed)) :
    AcceptsOnce lib t := by
  obtain ⟨hn, hx⟩ := Prod.mk.inj he
  refine ⟨fun x hmem hgives u hu => ?_, hx ▸ h.once⟩
  obtain ⟨hout, hended⟩ := h.ended x (hx ▸ hmem) hgives u hu
  rw [hn]
  exact ⟨hl.handedOut hacts hout, hl.ended hacts hout hended⟩

theorem step_exec (h : AcceptsOnce lib s) (hl : lib.Lawful) (ha : lib.AcceptsListening)
    (ho : Ordered s) (hg : Grounded p s) (hw : Wired s) {data : AsyncSRTWorkerPost}
    {rest : List AsyncSRTWorkerPost} (hq : s.asyncSrt.async.toWorker = data :: rest)
    (he : (t.asyncSrt.native, t.asyncSrt.async.executed) =
      ((lib.call s.asyncSrt.native data).1,
        s.asyncSrt.async.executed ++ [(data, (lib.call s.asyncSrt.native data).2)])) :
    AcceptsOnce lib t := by
  obtain ⟨hn, hx⟩ := Prod.mk.inj he
  obtain ⟨hwork, -, q, hmem, hdata, -⟩ := hw.executing hq
  have hacts : lib.Acts (fun _ => True) s.asyncSrt.native (lib.call s.asyncSrt.native data).1 :=
    lib.acts_call (fun _ _ => trivial) fun _ _ => trivial
  have hkept := h.of_acts (t := { s with asyncSrt :=
    { s.asyncSrt with native := (lib.call s.asyncSrt.native data).1 } }) hl hacts rfl
  by_cases hgives : givesClient (data, (lib.call s.asyncSrt.native data).2) = true
  · obtain ⟨hm, v, hok⟩ := eq_of_givesClient hgives
    obtain ⟨u, hpost, hheard⟩ := hg.heard_of_accept hw hmem (hdata ▸ hm)
    rw [hdata] at hpost
    obtain rfl : data = acceptPost (.number u) := hpost
    obtain ⟨hout, hlisten⟩ := listening_of_accepted ha hok
    -- the socket still listens, so that it has not accepted before, and it is the only one
    have hzero : s.asyncSrt.async.executed.countP givesClient = 0 := by
      rw [List.countP_eq_zero]
      intro x hmemx hgx
      obtain ⟨q', hq', hcall⟩ := hw.posted_of_executed hmemx
      have hmx := (eq_of_givesClient hgx).1
      obtain ⟨w, hpost', hheard'⟩ := hg.heard_of_accept hw hq' (hcall ▸ hmx)
      obtain rfl : w = u :=
        Slot.number.inj ((ho.heard_eq hw hwork hheard').trans (ho.heard_eq hw hwork hheard).symm)
      exact (h.ended x hmemx hgx w (hcall ▸ hpost')).2 hlisten.isOpen
    refine ⟨fun x hmem' hgx w hw' => ?_, ?_⟩
    · rw [hn]
      rw [hx] at hmem'
      rcases List.mem_append.mp hmem' with hold | hnew
      · exact hkept.ended x hold hgx w hw'
      · obtain rfl := List.mem_singleton.mp hnew
        obtain rfl : w = u := by simpa [acceptPost, ApiCall.post, Slot.toValue] using hw'.symm
        exact ⟨hl.handedOut hacts hout, hl.accept_ends hout⟩
    · rw [hx, List.countP_append, hzero, countP_single, hgives]
      exact le_rfl
  · have hno : givesClient (data, (lib.call s.asyncSrt.native data).2) = false := by
      simpa using hgives
    refine ⟨fun x hmem' hgx w hw' => ?_, ?_⟩
    · rw [hn]
      rw [hx] at hmem'
      rcases List.mem_append.mp hmem' with hold | hnew
      · exact hkept.ended x hold hgx w hw'
      · obtain rfl := List.mem_singleton.mp hnew
        exact absurd hgx hgives
    · rw [hx, List.countP_append, countP_single, hno]
      exact h.once

end AcceptsOnce

theorem execution_acceptsOnce (hl : lib.Lawful) (ha : lib.AcceptsListening)
    (h : (machine (nodeSRT lib) p).Execution (initial n) s) : AcceptsOnce lib s := by
  have main : (Wired s ∧ Ordered s ∧ Grounded p s) ∧ AcceptsOnce lib s := by
    refine h.invariant
      (I := fun s => (Wired s ∧ Ordered s ∧ Grounded p s) ∧ AcceptsOnce lib s)
      ⟨⟨initial_wired n, initial_ordered n, initial_grounded p n⟩, ?_⟩ fun u e hu he => ?_
    · constructor <;> simp [initial, Backed.initial, AsyncApi.initial]
    · obtain ⟨⟨hw, ho, hg⟩, honce⟩ := hu
      have hc : Change (nodeSRT lib) p u e (next (nodeSRT lib) p u e) := hw.changes he
      refine ⟨⟨step_wired hw he, ho.step hw hc, hg.step ho hw hc⟩, ?_⟩
      show AcceptsOnce lib (next (nodeSRT lib) p u e)
      cases hc.acts hw with
      | none heq => exact honce.of_acts hl (.none _) heq
      | exec hq heq =>
        simp only [Prod.mk.injEq] at heq
        exact honce.step_exec hl ha ho hg hw hq (Prod.ext heq.1 heq.2.1)
      | @env w heq =>
        simp only [Prod.mk.injEq] at heq
        exact honce.of_acts hl (.one (a := .env w) _ trivial) (Prod.ext heq.1 heq.2.1)
  exact main.2

/-- A server has one client at most in its life: one `accept` at most gives a socket, and there
is one connection at most that has one. -/
theorem one_client (hl : lib.Lawful) (ha : lib.AcceptsListening)
    (h : (machine (nodeSRT lib) p).Execution (initial n) s) :
    s.asyncSrt.async.executed.countP givesClient ≤ 1 ∧ s.fds.countP isSocket ≤ 1 := by
  have honce := (execution_acceptsOnce hl ha h).once
  refine ⟨honce, le_trans ?_ honce⟩
  calc s.fds.countP isSocket ≤ s.clients := Nat.le_add_left _ _
    _ ≤ s.answeredClients := execution_clients h
    _ ≤ s.asyncSrt.async.executed.countP givesClient :=
        (List.take_sublist _ _).countP_le

theorem one_client_accepted :
    let s := serverMachine.runTrace (initial .empty) acceptRun
    s.fds = [.number 2] ∧ s.fds.countP isSocket ≤ 1 := by
  intro s
  have h : serverMachine.Execution (initial .empty) s :=
    Machine.execution_of_trace _ _ acceptRun (by decide)
  exact ⟨by decide, (one_client table_lawful table_acceptsListening h).2⟩

end SocketAsync
